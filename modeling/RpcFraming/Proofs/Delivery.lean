import RpcFraming.Proofs.Assembler.Isolation
import RpcFraming.Proofs.Transmission
import Mathlib.Data.Fintype.Card

/-!
# From end to end

Several packets are sent, each whole or split as its sender is set up, and their frames arrive mixed:
only the frames of one packet keep their order. The receiver decodes each frame as it arrives and
feeds the packet to an assembler.

The invariant of the receiver (`Awaits`) says, at any moment, what the frames that have not arrived
yet will do: those of a packet are none, or the one in which it travels whole, or chunks that complete
its stream (`Transmission.Outstanding`). As no more packets are split than there is room for, the
streams do not see each other, and each frame touches the stream of its own packet alone.

Two packets may be split under the same stream id, as ids come round again. This does no harm as long
as the packets are not under way together (`KeptApart`): the stream of the first is idle again when
the second starts. Where they are under way together, the assembler cannot tell them apart.

## What is proved

* `Awaits.take`: the invariant is kept by every frame that arrives, and what is answered to it is
  a packet at the last frame of a packet, and nothing at every other one.
* `delivers`: every packet that was sent comes out, once, at its last frame, and nothing is left.
* `mixes_twins`: two packets under one stream id come out as one when their chunks are mixed.

The codec is assumed to parse what it serialized.
-/

namespace RpcFraming

/-- A packet that was sent, and how. -/
structure Transmission (codec : Codec Id) where
  /-- The packet. -/
  packet : Packet
  /-- The head of the packet. -/
  head : Head
  /-- The metadata of the packet. -/
  metadata : Metadata
  /-- The settings of the sender. -/
  config : Config
  /-- Where the sender draws the stream id, if it needs one. -/
  ids : StreamIds
  /-- The frames that were sent. -/
  frames : List Bytes
  head_eq : packet.head = some head
  metadata_eq : packet.metadata = some metadata
  not_chunk : packet.chunkInfo? = none
  run_transmit : Id.run (packet.transmit codec config ids).1.run = .ok frames

/-- A frame of one of `k` packets, as it arrives. -/
structure Arrival (k : Nat) where
  /-- The packet that the frame belongs to. -/
  source : Fin k
  /-- The frame. -/
  frame : Bytes
  /-- The receiver's clock. -/
  now : Int64

/-- The frames of one packet, in the order in which they arrive. -/
def framesOf {k : Nat} (i : Fin k) (arrivals : List (Arrival k)) : List Bytes :=
  (arrivals.filter (·.source = i)).map Arrival.frame

/-- Some frames of a packet have arrived, and some are still to come. -/
def UnderWay {k : Nat} (i : Fin k) (before rest : List (Arrival k)) : Prop :=
  i ∈ before.map Arrival.source ∧ i ∈ rest.map Arrival.source

instance {k : Nat} (i : Fin k) (before rest : List (Arrival k)) : Decidable (UnderWay i before rest) :=
  inferInstanceAs (Decidable (_ ∧ _))

namespace Transmission

variable {codec : Codec Id}

/-- The packet was split. -/
def IsSplit (x : Transmission codec) : Prop := 1 < x.frames.length

instance (x : Transmission codec) : Decidable x.IsSplit := inferInstanceAs (Decidable (1 < _))

/-- The stream id that is drawn when the packet is split. -/
def streamId (x : Transmission codec) : Int64 := x.ids.next.1

/-- What the frames of a packet that are still to arrive will do, where `σ` is where its stream
stands. -/
inductive Outstanding (limit : Nat) (x : Transmission codec) (σ : StreamState) : List Bytes → Prop where
  /-- All have arrived. -/
  | nothing : Outstanding limit x σ []
  /-- The packet travels whole in one frame. -/
  | whole {frame : Bytes} (hwhole : ¬ x.IsSplit)
      (h : ∀ now, ∃ q, Id.run (Packet.decode codec now (.bytes frame)).run = .ok q ∧
        x.packet.Restores codec q) :
      Outstanding limit x σ [frame]
  /-- The stream will be completed. -/
  | chunks {frames : List Bytes} (hsplit : x.IsSplit)
      (h : Completes codec limit x.streamId (x.packet.Restores codec) σ frames) :
      Outstanding limit x σ frames

/-- It matters where the stream of a packet stands only if the packet was split and frames of it are
still to arrive. -/
theorem Outstanding.congr {limit : Nat} {x : Transmission codec} {σ σ' : StreamState}
    {frames : List Bytes} (h : x.Outstanding limit σ frames)
    (hσ : x.IsSplit → frames ≠ [] → σ' = σ) : x.Outstanding limit σ' frames := by
  cases h with
  | nothing => exact .nothing
  | whole hwhole h => exact .whole hwhole h
  | chunks hsplit h => exact .chunks hsplit (hσ hsplit h.ne_nil ▸ h)

theorem outstanding_idle (lawful : codec.Lawful) (x : Transmission codec) {limit : Nat}
    (hlimit : limit < UInt32.size) (hdata : x.IsSplit → x.packet.data.length ≤ limit) :
    x.Outstanding limit .idle x.frames := by
  obtain ⟨frame, hframes, h⟩ | ⟨hsplit, h⟩ :=
    whole_or_completes lawful x.head_eq x.metadata_eq x.not_chunk x.run_transmit
  · rw [hframes]
    exact .whole (by simp [IsSplit, hframes]) h
  · exact .chunks hsplit (h limit hlimit (hdata hsplit))

theorem frames_ne_nil (lawful : codec.Lawful) (x : Transmission codec) : x.frames ≠ [] := by
  obtain ⟨frame, hframes, -⟩ | ⟨hsplit, -⟩ :=
    whole_or_completes lawful x.head_eq x.metadata_eq x.not_chunk x.run_transmit
  · simp [hframes]
  · exact List.ne_nil_of_length_pos (Nat.lt_of_succ_lt hsplit)

end Transmission

/-! ### Arrivals -/

section Arrivals

variable {k : Nat} {i : Fin k} {x : Arrival k} {rest : List (Arrival k)}

theorem framesOf_cons_self : framesOf x.source (x :: rest) = x.frame :: framesOf x.source rest := by
  simp [framesOf]

theorem framesOf_cons_of_ne (h : i ≠ x.source) : framesOf i (x :: rest) = framesOf i rest := by
  simp [framesOf, Ne.symm h]

theorem framesOf_append (before : List (Arrival k)) :
    framesOf i (before ++ rest) = framesOf i before ++ framesOf i rest := by
  simp [framesOf]

theorem framesOf_eq_nil_iff : framesOf i rest = [] ↔ i ∉ rest.map Arrival.source := by
  simp [framesOf]

theorem framesOf_ne_nil_iff : framesOf i rest ≠ [] ↔ i ∈ rest.map Arrival.source := by
  rw [ne_eq, framesOf_eq_nil_iff, not_not]

/-- A frame of another packet leaves it as it was whether a packet is under way. -/
theorem underWay_snoc_iff_of_ne {before : List (Arrival k)} (h : i ≠ x.source) :
    UnderWay i (before ++ [x]) rest ↔ UnderWay i before (x :: rest) := by
  simp [UnderWay, h]

end Arrivals

/-- After any number of arrivals, the packets that are under way have different stream ids. -/
def KeptApart {k : Nat} {codec : Codec Id} (sent : Fin k → Transmission codec)
    (arrivals : List (Arrival k)) : Prop :=
  ∀ n < arrivals.length, ∀ i j, UnderWay i (arrivals.take n) (arrivals.drop n) →
    UnderWay j (arrivals.take n) (arrivals.drop n) → (sent i).streamId = (sent j).streamId → i = j

instance {k : Nat} {codec : Codec Id} (sent : Fin k → Transmission codec)
    (arrivals : List (Arrival k)) : Decidable (KeptApart sent arrivals) :=
  inferInstanceAs (Decidable (∀ n < arrivals.length, _))

theorem KeptApart.eq {k : Nat} {codec : Codec Id} {sent : Fin k → Transmission codec}
    {before rest : List (Arrival k)} (h : KeptApart sent (before ++ rest)) {i j : Fin k}
    (hi : UnderWay i before rest) (hj : UnderWay j before rest)
    (hids : (sent i).streamId = (sent j).streamId) : i = j := by
  have hrest : 0 < rest.length := by
    rw [← List.length_map (f := Arrival.source)]
    exact List.length_pos_of_mem hi.2
  refine h before.length (by rw [List.length_append]; omega) i j ?_ ?_ hids <;>
    rwa [List.take_left, List.drop_left]

namespace Assembler

variable {k : Nat} (codec : Codec Id)

/-- What comes of a frame that arrives. -/
def take (a : Assembler) (x : Arrival k) : Fed := Id.run (a.receive codec x.now x.frame)

/-- The assembler after some frames have arrived. -/
def afterAll (a : Assembler) (arrivals : List (Arrival k)) : Assembler :=
  arrivals.foldl (fun a x => (a.take codec x).assembler) a

/-- The packets that come out as frames arrive. -/
def returned : Assembler → List (Arrival k) → List Packet
  | _, [] => []
  | a, x :: rest =>
    match (a.take codec x).outcome with
    | .ok (some q) => q :: returned (a.take codec x).assembler rest
    | _ => returned (a.take codec x).assembler rest

variable {codec} {a : Assembler} {x : Arrival k} {r : Packet}

theorem take_of_run_decode
    (h : Id.run (Packet.decode codec x.now (.bytes x.frame)).run = .ok r) :
    a.take codec x = a.feed r := by
  rw [take, run_receive, h]

/-! ### The invariant -/

/-- Where the stream of a packet stands for the packet itself: before its first frame it is idle,
whatever other packet has the same id. -/
def standing (a : Assembler) (sent : Fin k → Transmission codec) (before rest : List (Arrival k))
    (i : Fin k) : StreamState :=
  if UnderWay i before rest then a.stream (sent i).streamId else .idle

/-- Some frames have arrived and the receiver awaits the rest: the frames of each packet will do what
they should, only streams of packets that are under way have started, and none is being dropped. -/
structure Awaits (sent : Fin k → Transmission codec) (a : Assembler) (before rest : List (Arrival k)) :
    Prop where
  valid : a.Valid
  order : ∀ i, framesOf i (before ++ rest) = (sent i).frames
  apart : KeptApart sent (before ++ rest)
  outstanding : ∀ i,
    (sent i).Outstanding a.dataLimit (a.standing sent before rest i) (framesOf i rest)
  started : ∀ t, a.stream t ≠ .idle → ∃ i, UnderWay i before rest ∧ (sent i).streamId = t
  kept : ∀ t, a.stream t ≠ .dropping
  room : a.config.maxPendingStreams = 0 ∨
    (Finset.univ.filter fun i => (sent i).IsSplit).card ≤ a.config.maxPendingStreams.toNat

section Invariant

variable {sent : Fin k → Transmission codec} {before rest : List (Arrival k)}

/-- Only packets that were split are under way. -/
theorem Awaits.isSplit (h : Awaits sent a before rest) {i : Fin k} (hi : UnderWay i before rest) :
    (sent i).IsSplit := by
  have hbefore := List.length_pos_of_ne_nil (framesOf_ne_nil_iff.2 hi.1)
  have hrest := List.length_pos_of_ne_nil (framesOf_ne_nil_iff.2 hi.2)
  rw [Transmission.IsSplit, ← h.order i, framesOf_append, List.length_append]
  omega

/-- While a chunk of a packet arrives, no other packet that is under way has its stream id. -/
theorem Awaits.streamId_ne (h : Awaits sent a before (x :: rest)) (hx : (sent x.source).IsSplit)
    {i : Fin k} (hi : UnderWay i before (x :: rest)) (hne : i ≠ x.source) :
    (sent i).streamId ≠ (sent x.source).streamId := by
  intro hids
  by_cases hbegun : x.source ∈ before.map Arrival.source
  · exact hne (h.apart.eq hi ⟨hbegun, by simp⟩ hids)
  · -- the chunk is the first one and not the last, so both packets are under way after it
    have hlater : x.source ∈ rest.map Arrival.source := by
      by_contra hlast
      have horder := h.order x.source
      rw [framesOf_append, framesOf_eq_nil_iff.2 hbegun, framesOf_cons_self,
        framesOf_eq_nil_iff.2 hlast] at horder
      rw [Transmission.IsSplit, ← horder] at hx
      exact absurd hx (by simp)
    have hapart : KeptApart sent ((before ++ [x]) ++ rest) := by
      rw [List.append_assoc]
      exact h.apart
    exact hne (hapart.eq ((underWay_snoc_iff_of_ne hne).2 hi) ⟨by simp, hlater⟩ hids)

/-- When a chunk arrives, its stream stands where it does for the packet of the chunk. -/
theorem Awaits.standing_eq_stream (h : Awaits sent a before (x :: rest))
    (hx : (sent x.source).IsSplit) :
    a.standing sent before (x :: rest) x.source = a.stream (sent x.source).streamId := by
  by_cases hbegun : x.source ∈ before.map Arrival.source
  · exact if_pos ⟨hbegun, by simp⟩
  · rw [standing, if_neg fun hi => hbegun hi.1]
    by_contra hstarted
    obtain ⟨i, hi, hids⟩ := h.started _ (Ne.symm hstarted)
    refine h.streamId_ne hx hi ?_ hids
    rintro rfl
    exact hbegun hi.1

/-- There is always room for the chunks of a packet that was split. -/
theorem Awaits.hasRoom (h : Awaits sent a before rest) {i : Fin k} (hi : (sent i).IsSplit) :
    a.HasRoom (sent i).streamId where
  start := by
    -- the streams of the split packets are counted
    have hmem : ∀ j, (sent j).IsSplit → (sent j).streamId ∈
        (Finset.univ.filter fun i => (sent i).IsSplit).image fun i => (sent i).streamId := by
      intro j hj
      exact Finset.mem_image_of_mem _ (Finset.mem_filter.2 ⟨Finset.mem_univ j, hj⟩)
    refine h.valid.isFull_eq_false (fun hmax => ?_) (fun t ht => ?_) (hmem i hi)
    · exact Finset.card_image_le.trans (h.room.resolve_left hmax)
    · obtain ⟨j, hj, rfl⟩ := h.started t ht
      exact hmem j (h.isSplit hj)
  discard _ := by
    have hnil : a.discarded = [] := List.eq_nil_iff_forall_not_mem.2 fun t ht =>
      h.kept t (stream_eq_dropping_iff.2 ht)
    rw [hnil]
    exact memory_pos a

/-- A frame of another packet that leaves the stream of a packet alone leaves it where it stands. -/
theorem standing_snoc_of_ne {a' : Assembler} {i : Fin k} (hne : i ≠ x.source)
    (h : UnderWay i before (x :: rest) → a'.stream (sent i).streamId = a.stream (sent i).streamId) :
    a'.standing sent (before ++ [x]) rest i = a.standing sent before (x :: rest) i := by
  by_cases hi : UnderWay i before (x :: rest)
  · rw [standing, standing, if_pos hi, if_pos ((underWay_snoc_iff_of_ne hne).2 hi), h hi]
  · rw [standing, standing, if_neg hi, if_neg ((underWay_snoc_iff_of_ne hne).not.2 hi)]

/-- The invariant is kept if no stream is touched but that of the packet whose frame arrives, and only
if the packet was split, and if this one then stands where the frames still to arrive expect it. -/
theorem Awaits.advance (h : Awaits sent a before (x :: rest)) {a' : Assembler} (hvalid : a'.Valid)
    (hconfig : a'.config = a.config)
    (hother : ∀ t, ((sent x.source).IsSplit → t ≠ (sent x.source).streamId) →
      a'.stream t = a.stream t)
    (hself : (sent x.source).IsSplit → a'.stream (sent x.source).streamId ≠ .dropping ∧
      (a'.stream (sent x.source).streamId ≠ .idle → framesOf x.source rest ≠ []))
    (houtstanding : (sent x.source).Outstanding a.dataLimit
      (a'.stream (sent x.source).streamId) (framesOf x.source rest)) :
    Awaits sent a' (before ++ [x]) rest := by
  have hunderWay : framesOf x.source rest ≠ [] → UnderWay x.source (before ++ [x]) rest :=
    fun hne => ⟨by simp, framesOf_ne_nil_iff.1 hne⟩
  have hsnoc : (before ++ [x]) ++ rest = before ++ x :: rest := List.append_assoc _ _ _
  refine ⟨hvalid, hsnoc ▸ h.order, hsnoc ▸ h.apart, fun i => ?_, fun t ht => ?_, fun t => ?_, ?_⟩
  · rw [dataLimit, hconfig]
    by_cases hix : i = x.source
    · subst hix
      exact houtstanding.congr fun _ hne => if_pos (hunderWay hne)
    · have hout := h.outstanding i
      rw [framesOf_cons_of_ne hix] at hout
      rwa [standing_snoc_of_ne hix fun hi => hother _ fun hx => h.streamId_ne hx hi hix]
  · by_cases htx : (sent x.source).IsSplit ∧ t = (sent x.source).streamId
    · obtain ⟨hx, rfl⟩ := htx
      exact ⟨x.source, hunderWay ((hself hx).2 ht), rfl⟩
    · rw [hother t fun hx he => htx ⟨hx, he⟩] at ht
      obtain ⟨i, hi, hit⟩ := h.started t ht
      have hix : i ≠ x.source := by
        rintro rfl
        exact htx ⟨h.isSplit hi, hit.symm⟩
      exact ⟨i, (underWay_snoc_iff_of_ne hix).2 hi, hit⟩
  · by_cases htx : (sent x.source).IsSplit ∧ t = (sent x.source).streamId
    · obtain ⟨hx, rfl⟩ := htx
      exact (hself hx).1
    · rw [hother t fun hx he => htx ⟨hx, he⟩]
      exact h.kept t
  · rw [hconfig]
    exact h.room

/-- A chunk of a split packet is received by its own stream alone. -/
theorem Awaits.feed (h : Awaits sent a before (x :: rest)) (hx : (sent x.source).IsSplit)
    (hr : r.streamId? = some (sent x.source).streamId) {σ : StreamState} {reply : Reply}
    (hfeed : (a.stream (sent x.source).streamId).feed a.dataLimit r = (σ, reply))
    (hkept : σ ≠ .dropping) (hstarted : σ ≠ .idle → framesOf x.source rest ≠ [])
    (houtstanding : (sent x.source).Outstanding a.dataLimit σ (framesOf x.source rest)) :
    Awaits sent (a.feed r).assembler (before ++ [x]) rest ∧ (a.feed r).reply = reply := by
  obtain ⟨info, hinfo, hid⟩ := streamId?_eq_some_iff.1 hr
  have hroom : a.HasRoom info.streamId := hid ▸ h.hasRoom hx
  rw [StreamState.feed_of_chunk hinfo, ← hid] at hfeed
  have hself : (a.feed r).assembler.stream (sent x.source).streamId = σ := by
    rw [← hid, stream_feed_self h.valid hinfo, hfeed]
  refine ⟨h.advance (h.valid.feed r) config_feed (fun t ht => ?_) (fun _ => ?_) ?_, ?_⟩
  · exact stream_feed_of_ne hinfo hroom (hid ▸ ht hx)
  · rw [hself]
    exact ⟨hkept, hstarted⟩
  · rw [hself]
    exact houtstanding
  · rw [reply_feed_of_hasRoom hinfo hroom, hfeed]

/-- A packet that comes whole is answered with itself, and touches no stream. -/
theorem Awaits.feed_of_whole (h : Awaits sent a before (x :: rest))
    (hwhole : ¬ (sent x.source).IsSplit) (hrest : framesOf x.source rest = [])
    (hr : r.chunkInfo? = none) :
    Awaits sent (a.feed r).assembler (before ++ [x]) rest ∧
      (a.feed r).reply = ⟨.ok (some r), none⟩ := by
  have hfeed : a.feed r = ⟨a, .ok (some r), none⟩ := by simp only [Assembler.feed, hr]
  rw [hfeed]
  refine ⟨h.advance h.valid rfl (fun _ _ => rfl) (fun hx => absurd hx hwhole) ?_, rfl⟩
  rw [hrest]
  exact .nothing

/-- **One frame arrives.** The invariant is kept; the last frame of a packet is answered with the
packet, and every other one with nothing. -/
theorem Awaits.take (h : Awaits sent a before (x :: rest)) :
    Awaits sent (a.take codec x).assembler (before ++ [x]) rest ∧
    (x.source ∉ rest.map Arrival.source → ∃ q, (a.take codec x).reply = ⟨.ok (some q), none⟩ ∧
      (sent x.source).packet.Restores codec q) ∧
    (x.source ∈ rest.map Arrival.source → (a.take codec x).reply = ⟨.ok none, none⟩) := by
  have hout := h.outstanding x.source
  rw [framesOf_cons_self] at hout
  rw [← framesOf_eq_nil_iff, ← framesOf_ne_nil_iff]
  generalize hrest : framesOf x.source rest = later at hout
  cases hout with
  | whole hwhole hq =>
    obtain ⟨q, hdecode, hq⟩ := hq x.now
    obtain ⟨hnext, hreply⟩ := h.feed_of_whole hwhole hrest hq.chunkInfo
    rw [take_of_run_decode hdecode]
    exact ⟨hnext, fun _ => ⟨q, hreply, hq⟩, fun hne => absurd rfl hne⟩
  | chunks hsplit hcomplete =>
    rw [h.standing_eq_stream hsplit] at hcomplete
    cases hcomplete with
    | last hlast =>
      obtain ⟨r, q, hdecode, hr, hfeed, hq⟩ := hlast x.now
      obtain ⟨hnext, hreply⟩ := h.feed hsplit hr hfeed (by simp) (fun hne => absurd rfl hne)
        (by rw [hrest]; exact .nothing)
      rw [take_of_run_decode hdecode]
      exact ⟨hnext, fun _ => ⟨q, hreply, hq⟩, fun hne => absurd rfl hne⟩
    | more next hmore hlater =>
      obtain ⟨r, hdecode, hr, hfeed⟩ := hmore x.now
      obtain ⟨hnext, hreply⟩ := h.feed hsplit hr hfeed (by simp)
        (fun _ => hrest ▸ (hlater x.now).ne_nil) (by rw [hrest]; exact .chunks hsplit (hlater x.now))
      rw [take_of_run_decode hdecode]
      exact ⟨hnext, fun hnil => absurd hnil (hlater x.now).ne_nil, fun _ => hreply⟩

theorem Awaits.afterAll {arrivals : List (Arrival k)} (h : Awaits sent a before (arrivals ++ rest)) :
    Awaits sent (a.afterAll codec arrivals) (before ++ arrivals) rest := by
  induction arrivals generalizing a before with
  | nil => rwa [List.append_nil]
  | cons x arrivals ih =>
    have hrest := ih h.take.1
    rwa [List.append_assoc] at hrest

/-- As many packets come out as there are packets with frames among those that arrive. -/
theorem Awaits.length_returned (h : Awaits sent a before rest) :
    (returned codec a rest).length = (rest.map Arrival.source).toFinset.card := by
  induction rest generalizing a before with
  | nil => rfl
  | cons x rest ih =>
    obtain ⟨hnext, hlast, hmore⟩ := h.take
    rw [List.map_cons, List.toFinset_cons, returned]
    by_cases hx : x.source ∈ rest.map Arrival.source
    · have houtcome : (a.take codec x).outcome = .ok none := congrArg Reply.outcome (hmore hx)
      rw [Finset.insert_eq_of_mem (List.mem_toFinset.2 hx), houtcome]
      exact ih hnext
    · obtain ⟨q, hreply, -⟩ := hlast hx
      have houtcome : (a.take codec x).outcome = .ok (some q) := congrArg Reply.outcome hreply
      rw [Finset.card_insert_of_notMem (mt List.mem_toFinset.1 hx), houtcome, List.length_cons,
        ih hnext]

end Invariant

/-! ### Delivery -/

/-- **End-to-end delivery.** Packets are sent, whole or split, and their frames arrive mixed at
a receiver that has room for the streams and for the data of those that are split; packets that are
under way at the same moment have different stream ids. Then no frame is refused and the operator is
told nothing; the last frame of each packet brings out what restores the packet (`Packet.Restores`),
and every other frame brings out nothing; as many packets come out as were sent, and no stream stays
incomplete. -/
theorem delivers {codec : Codec Id} (lawful : codec.Lawful) (sent : Fin k → Transmission codec)
    (receiver : Config) {arrivals : List (Arrival k)}
    (horder : ∀ i, framesOf i arrivals = (sent i).frames) (hapart : KeptApart sent arrivals)
    (hroom : receiver.maxPendingStreams = 0 ∨
      (Finset.univ.filter fun i => (sent i).IsSplit).card ≤ receiver.maxPendingStreams.toNat)
    (hdata : ∀ i, (sent i).IsSplit →
      (sent i).packet.data.length ≤ receiver.maxBodySize.toNat) :
    (∀ before x rest, arrivals = before ++ x :: rest →
      (x.source ∉ rest.map Arrival.source →
        ∃ q, ((afterAll codec { config := receiver } before).take codec x).reply
            = ⟨.ok (some q), none⟩ ∧ (sent x.source).packet.Restores codec q) ∧
      (x.source ∈ rest.map Arrival.source →
        ((afterAll codec { config := receiver } before).take codec x).reply = ⟨.ok none, none⟩)) ∧
    (returned codec { config := receiver } arrivals).length = k ∧
    (afterAll codec { config := receiver } arrivals).pendingCount = 0 := by
  have hstart : Awaits sent { config := receiver } [] arrivals :=
    { valid := valid_new receiver
      order := horder
      apart := hapart
      outstanding := fun i => by
        rw [standing, if_neg (by simp [UnderWay]), horder]
        exact (sent i).outstanding_idle lawful receiver.maxBodySize.toNat_lt_size (hdata i)
      started := fun t ht => absurd (stream_new receiver) ht
      kept := fun t => by rw [stream_new]; simp
      room := hroom }
  refine ⟨?_, ?_, ?_⟩
  · rintro before x rest rfl
    exact hstart.afterAll.take.2
  · have hall : (arrivals.map Arrival.source).toFinset = Finset.univ := by
      refine Finset.eq_univ_iff_forall.2 fun i => List.mem_toFinset.2 ?_
      rw [← framesOf_ne_nil_iff, horder]
      exact (sent i).frames_ne_nil lawful
    rw [hstart.length_returned, hall, Finset.card_fin]
  · have hend : Awaits sent (afterAll codec { config := receiver } arrivals) ([] ++ arrivals) [] :=
      Awaits.afterAll (by rwa [List.append_nil])
    have hidle : ∀ t, t ∉ (afterAll codec { config := receiver } arrivals).pendingIds := by
      intro t ht
      obtain ⟨i, hi, -⟩ := hend.started t fun hidle => (stream_eq_idle_iff.1 hidle).2 ht
      exact absurd hi.2 (by simp)
    rw [pendingCount, ← length_pendingIds, List.eq_nil_iff_forall_not_mem.2 hidle, List.length_nil]

end Assembler

/-! ### Packets in chunks of two bytes -/

namespace Transmission

/-- A packet with a correlation number, three bytes of data and one byte of attachment. -/
def samplePacket (n : UInt8) : Packet where
  head := some {}
  metadata := some { correlationId := n.toNat.toInt64 }
  data := [n, n + 1, n + 2]
  attachment := [0xAA]

/-- The places of two chunks in the stream `s`. -/
def sampleInfo (s : UInt8) (last : Bool) : ChunkInfo :=
  ⟨s.toNat.toInt64, if last then ChunkInfo.finalId else 0⟩

/-- The messages of the chunks of `samplePacket n` in the stream `s`, and their bytes. -/
def sampleTable (n s : UInt8) : List (Message × Bytes) :=
  [({ correlationId := n.toNat.toInt64, attachmentSize := 1,
      chunkInfo := some (sampleInfo s false) : Metadata }.toMessage,
    [0x18, 0, 0x20, n, 0x28, 1, 0x32, 4, 8, s, 0x10, 0]),
   ({ correlationId := n.toNat.toInt64, attachmentSize := 0,
      chunkInfo := some (sampleInfo s true) : Metadata }.toMessage,
    [0x18, 0, 0x20, n, 0x28, 0, 0x32, 13, 8, s, 0x10,
      0xFF, 0xFF, 0xFF, 0xFF, 0xFF, 0xFF, 0xFF, 0xFF, 0xFF, 1])]

/-- A codec that knows the chunks of three packets, two of them in the same stream. -/
def chunkCodec : Codec Id := .ofTable (sampleTable 1 5 ++ sampleTable 4 5 ++ sampleTable 7 6)

theorem lawful_chunkCodec : chunkCodec.Lawful := Codec.lawful_ofTable (by decide)

/-- The frames of `samplePacket n` in chunks of two bytes, in the stream `s`. -/
def sampleFrames (n s : UInt8) : List Bytes :=
  [[0x50, 0x52, 0x50, 0x43, 0, 0, 0, 15, 0, 0, 0, 12,
      0x18, 0, 0x20, n, 0x28, 1, 0x32, 4, 8, s, 0x10, 0, n, n + 1, 0xAA],
   [0x50, 0x52, 0x50, 0x43, 0, 0, 0, 22, 0, 0, 0, 21,
      0x18, 0, 0x20, n, 0x28, 0, 0x32, 13, 8, s, 0x10,
      0xFF, 0xFF, 0xFF, 0xFF, 0xFF, 0xFF, 0xFF, 0xFF, 0xFF, 1, n + 2]]

theorem pieces_sample (a b c : UInt8) : Bytes.pieces 2 [a, b, c] = [[a, b], [c]] := by
  rw [Bytes.pieces_of_lt_length (by decide) (by simp), Bytes.pieces_of_length_le (by simp)]
  rfl

theorem run_transmit_samplePacket {n : UInt8} {ids : StreamIds} {s : Int64} {frames : List Bytes}
    (hs : ids.next.1 = s)
    (h : Id.run (encodeAll chunkCodec ((samplePacket n).chunks s [[n, n + 1], [n + 2]])).run
      = .ok frames) :
    Id.run ((samplePacket n).transmit chunkCodec { chunkSize := 2 } ids).1.run = .ok frames := by
  have hsplit : ¬ ((2 : Int64) < 1 ∨ (samplePacket n).data.length ≤ (2 : Int64).toNatClampNeg) := by
    show ¬ ((2 : Int64) < 1 ∨ 3 ≤ (2 : Int64).toNatClampNeg)
    decide
  have hchunks : ((samplePacket n).split 2 ids).1
      = (samplePacket n).chunks s [[n, n + 1], [n + 2]] := by
    rw [Packet.split, if_neg hsplit, ← hs]
    show Packet.chunks _ _ (Bytes.pieces 2 [n, n + 1, n + 2]) = _
    rw [pieces_sample]
  show Id.run (encodeAll chunkCodec ((samplePacket n).split 2 ids).1).run = _
  rw [hchunks, h]

/-- `samplePacket n` is sent in chunks of two bytes. -/
def ofSample (n s : UInt8) (ids : StreamIds) (hs : ids.next.1 = s.toNat.toInt64)
    (h : Id.run (encodeAll chunkCodec
      ((samplePacket n).chunks s.toNat.toInt64 [[n, n + 1], [n + 2]])).run = .ok (sampleFrames n s)) :
    Transmission chunkCodec where
  packet := samplePacket n
  head := {}
  metadata := { correlationId := n.toNat.toInt64 }
  config := { chunkSize := 2 }
  ids
  frames := sampleFrames n s
  head_eq := rfl
  metadata_eq := rfl
  not_chunk := rfl
  run_transmit := run_transmit_samplePacket hs h

/-- Three packets are sent in chunks of two bytes. The first two draw the same stream id. -/
def sampleSent : Fin 3 → Transmission chunkCodec
  | 0 => ofSample 1 5 ⟨0x83C953D1D0EE9FB1⟩ (by decide) rfl
  | 1 => ofSample 4 5 ⟨0x851E329CC0854B8B⟩ (by decide) rfl
  | 2 => ofSample 7 6 ⟨0x9CD9F015DB4E58B7⟩ (by decide) rfl

/-- The first two of `sampleSent`. -/
def twins (i : Fin 2) : Transmission chunkCodec := sampleSent i.castSucc

/-- Frames arrive in the given order. -/
def arrive {k : Nat} (sent : Fin k → Transmission chunkCodec) (order : List (Fin k × Nat)) :
    List (Arrival k) :=
  order.map fun (i, n) => ⟨i, ((sent i).frames[n]?).getD [], 1⟩

/-- The third packet arrives while the first two do, one after the other. -/
def sampleArrivals : List (Arrival 3) :=
  arrive sampleSent [(0, 0), (2, 0), (0, 1), (1, 0), (2, 1), (1, 1)]

/-- The chunks of the first two packets arrive in turn. -/
def twinArrivals : List (Arrival 2) := arrive twins [(0, 0), (1, 0), (0, 1), (1, 1)]

end Transmission

namespace Assembler

open Transmission

/-- `delivers` on three packets with two stream ids, with no room to spare. -/
theorem delivers_sampleSent :
    (returned chunkCodec { config := { maxPendingStreams := 3, maxBodySize := 3 } }
        sampleArrivals).length = 3 ∧
      (afterAll chunkCodec { config := { maxPendingStreams := 3, maxBodySize := 3 } }
        sampleArrivals).pendingCount = 0 :=
  (delivers lawful_chunkCodec sampleSent { maxPendingStreams := 3, maxBodySize := 3 }
    (by decide) (by decide) (by decide) (by decide)).2

/-- Without `KeptApart` all this fails. Two packets draw the same stream id and their chunks arrive in
turn at a receiver that has room for both and for their data: the first comes out with data of the
second in it, and the second does not come out. -/
theorem mixes_twins :
    chunkCodec.Lawful ∧ (∀ i, framesOf i twinArrivals = (twins i).frames) ∧
      (Finset.univ.filter fun i => (twins i).IsSplit).card ≤ (Config.maxPendingStreams {}).toNat ∧
      (∀ i, (twins i).packet.data.length ≤ (Config.maxBodySize {}).toNat) ∧
      (twins 0).packet.data = [1, 2, 3] ∧ (twins 1).packet.data = [4, 5, 6] ∧
      (returned chunkCodec { config := {} } twinArrivals).map Packet.data = [[1, 2, 4, 5, 3]] :=
  ⟨lawful_chunkCodec, by decide, by decide, by decide, rfl, rfl, by decide⟩

end Assembler

end RpcFraming
