import RpcFraming.Fault
import RpcFraming.Notice
import RpcFraming.Packet

/-!
# One chunk stream

The life of one chunk stream at the receiver, told as if there were no other. A stream is `idle`
until its chunk 0 comes; then it is `collecting`, and its terminal chunk makes it idle again and
brings out the packet that was split. A stream that cannot be put together is `dropping` until its
terminal chunk comes. There is no bound on the number of streams here, and no memory of dropped ones
that could run out: only the bound on the data of one stream is left.

`Fades` says what other streams can do to this one where those bounds do exist: they can make the
receiver give up what it has collected, or forget that it is dropping, and nothing else.
-/

namespace RpcFraming

/-- What is answered to one packet. -/
structure Reply where
  /-- The packet that comes out, if one does, or why the fed one was refused. -/
  outcome : Except Fault (Option Packet)
  /-- What the operator is told, if anything. -/
  notice : Option Notice
  deriving Repr

/-- Where a chunk stream stands. -/
inductive StreamState where
  /-- Nothing is known of the stream. -/
  | idle
  /-- The stream has started, and this came of it so far. -/
  | collecting (assembled : Packet)
  /-- The rest of the stream is dropped. -/
  | dropping
  deriving Repr

namespace StreamState

/-- One more chunk behind what came of the stream so far: its data goes behind, and its attachment
counts if none came before. -/
def absorb (assembled chunk : Packet) : Packet :=
  { assembled with
    data := assembled.data ++ chunk.data
    attachment := if assembled.attachment = [] then chunk.attachment else assembled.attachment }

/-- A stream that is given up at a chunk: the chunks after it are dropped, if there are any. -/
def abandonedAt (info : ChunkInfo) : StreamState := if info.isFinal then idle else dropping

/-- A stream takes a chunk. The data of one stream may have at most `limit` bytes. -/
def feedChunk (limit : Nat) (info : ChunkInfo) (chunk : Packet) : StreamState → StreamState × Reply
  | idle =>
    if info.chunkId ≠ 0 then
      (abandonedAt info, ⟨.ok none, some (.chunkWithoutStart info.chunkId info.streamId)⟩)
    else if limit < chunk.data.length then (dropping, ⟨.error .streamAboveLimit, none⟩)
    else (collecting chunk, ⟨.ok none, none⟩)
  | collecting assembled =>
    if limit < assembled.data.length + chunk.data.length then
      (abandonedAt info, ⟨.error .streamAboveLimit, none⟩)
    else if info.isFinal then (idle, ⟨.ok (some (absorb assembled chunk).clearChunkInfo), none⟩)
    else (collecting (absorb assembled chunk), ⟨.ok none, none⟩)
  | dropping => (abandonedAt info, ⟨.ok none, none⟩)

/-- A stream takes a packet. A packet that is no chunk comes straight out. -/
def feed (limit : Nat) (p : Packet) (σ : StreamState) : StreamState × Reply :=
  match p.chunkInfo? with
  | none => (σ, ⟨.ok (some p), none⟩)
  | some info => σ.feedChunk limit info p

/-- What is answered to the packets of a stream, one after the other. -/
def run (limit : Nat) : StreamState → List Packet → List Reply
  | _, [] => []
  | σ, p :: packets => (σ.feed limit p).2 :: run limit (σ.feed limit p).1 packets

/-- What the chunks of other streams can do to a stream. -/
inductive Fades : StreamState → StreamState → Prop where
  /-- Mostly nothing. -/
  | kept {σ : StreamState} : Fades σ σ
  /-- It may have to make room. -/
  | evicted {q : Packet} : Fades (collecting q) dropping
  /-- It may be forgotten that the stream is being dropped. -/
  | forgotten : Fades dropping idle

/-- A stream does not start to collect because of others. -/
theorem Fades.eq_collecting {σ : StreamState} {q : Packet} (h : σ.Fades (collecting q)) :
    σ = collecting q := by
  cases h
  rfl

theorem Fades.eq_idle {σ : StreamState} (h : idle.Fades σ) : σ = idle := by
  cases h
  rfl

/-! ### What a chunk can do -/

theorem feed_of_chunk {limit : Nat} {info : ChunkInfo} {p : Packet} (h : p.chunkInfo? = some info)
    (σ : StreamState) : σ.feed limit p = σ.feedChunk limit info p := by
  simp only [feed, h]

/-- A stream is collecting after a chunk only if the chunk started it or was added to it. -/
theorem collecting_of_feedChunk {limit : Nat} {info : ChunkInfo} {chunk q : Packet} {σ : StreamState}
    (h : (σ.feedChunk limit info chunk).1 = collecting q) :
    (σ = idle ∧ info.chunkId = 0 ∧ chunk.data.length ≤ limit ∧ q = chunk) ∨
      ∃ assembled, σ = collecting assembled ∧
        assembled.data.length + chunk.data.length ≤ limit ∧ q = absorb assembled chunk := by
  cases σ with
  | idle =>
    simp only [feedChunk] at h
    split at h
    · simp only [abandonedAt] at h
      split at h <;> cases h
    · next hzero =>
      split at h
      · cases h
      · next hlimit =>
        cases h
        exact .inl ⟨rfl, Decidable.not_not.1 hzero, Nat.le_of_not_lt hlimit, rfl⟩
  | collecting assembled =>
    simp only [feedChunk] at h
    split at h
    · simp only [abandonedAt] at h
      split at h <;> cases h
    · next hlimit =>
      split at h
      · cases h
      · cases h
        exact .inr ⟨assembled, rfl, Nat.le_of_not_lt hlimit, rfl⟩
  | dropping =>
    simp only [feedChunk, abandonedAt] at h
    split at h <;> cases h

/-- A chunk brings out a packet only if it is terminal and the stream was collecting. -/
theorem exists_of_feedChunk_eq_some {limit : Nat} {info : ChunkInfo} {chunk q : Packet}
    {σ : StreamState} (h : (σ.feedChunk limit info chunk).2.outcome = .ok (some q)) :
    ∃ assembled, σ = collecting assembled ∧ info.isFinal = true ∧
      assembled.data.length + chunk.data.length ≤ limit ∧
      q = (absorb assembled chunk).clearChunkInfo ∧ (σ.feedChunk limit info chunk).1 = idle := by
  cases σ with
  | idle =>
    simp only [feedChunk] at h
    split at h
    · cases h
    · split at h <;> cases h
  | collecting assembled =>
    simp only [feedChunk] at h ⊢
    split at h
    · cases h
    · next hlimit =>
      split at h
      · next hfinal =>
        cases h
        refine ⟨assembled, rfl, hfinal, Nat.le_of_not_lt hlimit, rfl, ?_⟩
        rw [if_neg hlimit, if_pos hfinal]
      · cases h
  | dropping => cases h

end StreamState

end RpcFraming
