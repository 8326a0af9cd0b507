/-
The channel from svmgr to init: frames in, messages out.

`frames_delivered_iff`: however a stream of valid frames is cut into
reads, it is delivered whole, in order and without any byte thrown
away, exactly when no frame is a log request with a level above 255.
`nextMessage_ok_iff` is the reason for the exception, over all
contents of the buffer: such a frame stops the process.

`log_text_intact_iff` is about the text of a log request, which is a
slice of the buffer: the caller reads it after the frame is gone and
the bytes behind it have moved to the front.
-/
import Dynamod.Init.Proofs.Codecs

namespace Dynamod.Init

open Lib MessagePack Msgpack

variable {bs : List UInt8} {i : Nat}

-- ==== a stream of reads

/-- Keep the messages in the order in which they are taken. -/
def collect (msgs : List InitMessage) (_ : Mem) (msg : InitMessage) : List InitMessage :=
  msgs ++ [msg]

/-- A sequence of reads, each followed by taking the messages. -/
def receiveAll : List (List UInt8) → List InitMessage × ReadBuffer →
    Checked (List InitMessage × ReadBuffer)
  | [], st => .ok st
  | chunk :: chunks, st => do
      let st ← st.2.receive collect st.1 (.data chunk)
      receiveAll chunks st

/-- Every read returns something, and no more than there is room for
when it is made. -/
def ReadsFit : List (List UInt8) → List InitMessage × ReadBuffer → Prop
  | [], _ => True
  | chunk :: chunks, st =>
    0 < chunk.length ∧ chunk.length ≤ capacity - st.2.len
      ∧ ∀ st', st.2.receive collect st.1 (.data chunk) = .ok st' →
        ReadsFit chunks st'

/-- One message per frame, in order, each what the parser makes of its
payload; no bytes are left and none were thrown away. -/
def Delivered (undef : Mem) (payloads : List Payload) (chunks : List (List UInt8)) : Prop :=
  ∃ msgs b, receiveAll chunks ([], .new undef) = .ok (msgs, b)
    ∧ msgs.map .ok = payloads.map Payload.parse ∧ b.len = 0 ∧ b.discards = []

theorem foldl_collect (steps : List (Mem × InitMessage)) (msgs : List InitMessage) :
    steps.foldl (fun s x => collect s x.1 x.2) msgs = msgs ++ steps.map Prod.snd := by
  induction steps generalizing msgs with
  | nil => exact (List.append_nil msgs).symm
  | cons x steps ih =>
    rw [List.foldl_cons, ih, collect, List.append_assoc]
    rfl

theorem receiveAll_cons {chunk : List UInt8} {chunks : List (List UInt8)}
    {st st' : List InitMessage × ReadBuffer}
    (h : st.2.receive collect st.1 (.data chunk) = .ok st') :
    receiveAll (chunk :: chunks) st = receiveAll chunks st' := by
  rw [receiveAll, h]
  rfl

/-- Less than a header of a stream of frames is pending. -/
theorem pending_of_short {todo : List Payload} (hbs : bs <+: wire Payload.frame todo)
    (hlen : bs.length < headerSize) : Pending Payload.frame todo bs := by
  cases todo with
  | nil => exact List.prefix_nil.1 hbs
  | cons p todo =>
    have hframe : headerSize ≤ p.frame.length := by
      rw [Payload.frame, length_frame]
      exact Nat.le_add_right _ _
    rw [wire_cons] at hbs
    have hlt := Nat.lt_of_lt_of_le hlen hframe
    exact ⟨List.prefix_of_prefix_length_le hbs (List.prefix_append _ _) (Nat.le_of_lt hlt), hlt⟩

/-- One read delivers the frames it completes. What is held then and what
is still to come are the frames that are left. -/
theorem receive_chunk {todo : List Payload} {b : ReadBuffer} {chunk later : List UInt8}
    (hall : b.bytes ++ (chunk ++ later) = wire Payload.frame todo) (hpos : 0 < chunk.length)
    (hroom : chunk.length ≤ capacity - b.len) (hok : ∀ p ∈ todo, ¬ OversizeLevel p.1)
    (msgs : List InitMessage) :
    ∃ done todo' new b', todo = done ++ todo' ∧ b'.bytes ++ later = wire Payload.frame todo'
      ∧ Pending Payload.frame todo' b'.bytes ∧ new.map .ok = done.map Payload.parse
      ∧ b'.discards = b.discards
      ∧ b.receive collect msgs (.data chunk) = .ok (msgs ++ new, b') := by
  rw [← List.append_assoc] at hall
  obtain ⟨done, todo', steps, b', rfl, hsplit, hpending, hsteps, hdis, hrun⟩ :=
    ReadBuffer.receive_frames collect ⟨_, hall⟩ hpos hroom hok msgs
  rw [foldl_collect] at hrun
  rw [hsplit, wire_append, List.append_assoc] at hall
  refine ⟨done, todo', steps.map Prod.snd, b', rfl, List.append_cancel_left hall, hpending, ?_,
    hdis, hrun⟩
  rw [← hsteps, List.map_map]
  rfl

/-- The reads that are left deliver the frames that are left. -/
theorem receiveAll_frames (chunks : List (List UInt8)) :
    ∀ {todo : List Payload} {msgs : List InitMessage} {b : ReadBuffer},
      Pending Payload.frame todo b.bytes → b.bytes ++ chunks.flatten = wire Payload.frame todo →
      ReadsFit chunks (msgs, b) → (∀ p ∈ todo, ¬ OversizeLevel p.1) →
      ∃ new b', receiveAll chunks (msgs, b) = .ok (msgs ++ new, b')
        ∧ new.map .ok = todo.map Payload.parse
        ∧ b'.len = 0 ∧ b'.discards = b.discards := by
  induction chunks with
  | nil =>
    intro todo msgs b hpending hall _ _
    rw [List.flatten_nil, List.append_nil] at hall
    obtain ⟨rfl, hnil⟩ := hpending.all hall
    refine ⟨[], b, by rw [List.append_nil]; rfl, rfl, ?_, rfl⟩
    rw [← ReadBuffer.length_bytes, hnil]
    rfl
  | cons chunk chunks ih =>
    intro todo msgs b hpending hall hfit hok
    obtain ⟨hpos, hroom, hnext⟩ := hfit
    obtain ⟨done, todo', first, b₁, rfl, hrest, hpending', hfirst, hdis, hrun⟩ :=
      receive_chunk hall hpos hroom hok msgs
    obtain ⟨new, b', hall', hnew, hlen, hdis'⟩ :=
      ih hpending' hrest (hnext _ hrun)
        fun p hp => hok p (List.mem_append_right _ hp)
    refine ⟨first ++ new, b', ?_, ?_, hlen, hdis'.trans hdis⟩
    · rw [receiveAll_cons hrun, hall', List.append_assoc]
    · rw [List.map_append, List.map_append, hnew, hfirst]

/-- However the frames are cut into reads, they are delivered exactly
when none of them is a log request with a level above 255. -/
theorem frames_delivered_iff (undef : Mem) (payloads : List Payload)
    (chunks : List (List UInt8)) (hsplit : chunks.flatten = wire Payload.frame payloads)
    (hfit : ReadsFit chunks ([], .new undef)) :
    Delivered undef payloads chunks ↔ ∀ p ∈ payloads, ¬ OversizeLevel p.1 := by
  constructor
  · rintro ⟨msgs, b, -, hmsgs, -⟩ p hp
    rw [← p.parse_ok_iff]
    obtain ⟨m, -, hm⟩ := List.mem_map.1 (hmsgs ▸ List.mem_map_of_mem hp)
    exact ⟨m, hm.symm⟩
  · intro hok
    have hpending : Pending Payload.frame payloads (ReadBuffer.new undef).bytes :=
      pending_of_short List.nil_prefix (Nat.succ_pos 5)
    obtain ⟨new, b, hrun, hnew, hlen, hdis⟩ :=
      receiveAll_frames chunks hpending hsplit hfit hok
    exact ⟨new, b, hrun, hnew, hlen, hdis⟩

/-- A stream that fits the buffer as a whole may be cut anywhere. -/
theorem readsFit_of_short (chunks : List (List UInt8)) :
    ∀ {todo : List Payload} {msgs : List InitMessage} {b : ReadBuffer},
      b.bytes ++ chunks.flatten = wire Payload.frame todo →
      (∀ p ∈ todo, ¬ OversizeLevel p.1) → (∀ c ∈ chunks, 0 < c.length) →
      b.len + chunks.flatten.length ≤ capacity → ReadsFit chunks (msgs, b) := by
  induction chunks with
  | nil => exact fun _ _ _ _ => True.intro
  | cons chunk chunks ih =>
    intro todo msgs b hall hok hpos hlen
    rw [List.flatten_cons, List.length_append] at hlen
    have hchunk := hpos chunk List.mem_cons_self
    have hroom : chunk.length ≤ capacity - b.len := by omega
    refine ⟨hchunk, hroom, fun st' hst' => ?_⟩
    obtain ⟨done, todo', first, b₁, rfl, hrest, -, -, -, hrun⟩ :=
      receive_chunk hall hchunk hroom hok msgs
    rw [hrun] at hst'
    injection hst' with hst'
    subst hst'
    refine ih hrest (fun p hp => hok p (List.mem_append_right _ hp))
      (fun c hc => hpos c (List.mem_cons_of_mem _ hc)) ?_
    -- the frames that are left are no longer than what was there before the read
    have hbefore := congrArg List.length hall
    have hafter := congrArg List.length hrest
    simp only [wire_append, List.length_append, List.flatten_cons, ReadBuffer.length_bytes]
      at hbefore hafter
    show b₁.len + chunks.flatten.length ≤ capacity
    omega

/-- The payload of a message of svmgr. -/
def payloadOf (m : Common.Message)
    (h : (MessagePack.encode m.toDatum).length ≤ maxMessageSize) : Payload :=
  ⟨MessagePack.encode m.toDatum, h⟩

/-- A heartbeat of svmgr. -/
def beat : Payload :=
  payloadOf { id := 1, kind := .event, body := .heartbeat } (by decide)

theorem beat_ok : ¬ OversizeLevel beat.1 := by
  rintro ⟨level, text, off, h, -⟩
  have hbeat : Says beat.1 .heartbeat := says_heartbeat rfl (Common.Message.fits (by decide))
  cases hbeat.unique h

/-- Two heartbeats, cut inside the header of the second. -/
def beatChunks : List (List UInt8) :=
  [beat.frame ++ beat.frame.take 3, beat.frame.drop 3]

theorem beats_delivered : Delivered (fun _ => 0) [beat, beat] beatChunks := by
  have hsplit : beatChunks.flatten = wire Payload.frame [beat, beat] := by decide
  have hok : ∀ p ∈ [beat, beat], ¬ OversizeLevel p.1 := by
    intro p hp
    simp only [List.mem_cons, List.not_mem_nil, or_false, or_self] at hp
    exact hp ▸ beat_ok
  exact (frames_delivered_iff _ _ _ hsplit
    (readsFit_of_short _ hsplit hok (by decide) (by decide))).2 hok

/-- A log request with a level that is no `u8`. -/
def loud : Payload :=
  ⟨MessagePack.encode (.map [(.str (utf8 "body"), logBody 256 (utf8 "loud"))]), by decide⟩

theorem loud_oversize : OversizeLevel loud.1 := by
  have hf : Fits (.map [(.str (utf8 "body"), logBody 256 (utf8 "loud"))]) :=
    fits_of_length _ (by simp [Ranged, RangedEntries, RangedEntry, logBody]) (by decide)
  exact ⟨256, _, _, says_log (entry_encode [] [] rfl hf fun e he => absurd he List.not_mem_nil)
    hf.2.1.2, Nat.le_refl _⟩

/-- One frame in one read, and the process stops. -/
theorem loud_not_delivered : [loud.frame].flatten = wire Payload.frame [loud]
    ∧ ReadsFit [loud.frame] ([], .new fun _ => 0)
    ∧ (∃ e, receiveAll [loud.frame] ([], .new fun _ => 0) = .error e)
    ∧ ¬ Delivered (fun _ => 0) [loud] [loud.frame] := by
  refine ⟨rfl, ⟨by decide, by decide, fun _ _ => True.intro⟩, ?_, ?_⟩
  · obtain ⟨b, hread, hb, -⟩ := ReadBuffer.readFrom_data
      (b := .new fun _ => 0) (show 0 < loud.frame.length by decide) (by decide)
    obtain ⟨e, he⟩ := ReadBuffer.nextMessage_oversize
      (hb.trans (List.append_nil _).symm) loud.2 loud_oversize
    refine ⟨e, ?_⟩
    rw [receiveAll, ReadBuffer.receive, hread]
    show ((b.drain collect []).bind _) = _
    rw [ReadBuffer.drain, ReadBuffer.drainWithin, he]
    rfl
  · rintro ⟨msgs, b, -, hmsgs, -⟩
    have hmem : loud.parse ∈ [loud].map Payload.parse := List.mem_singleton.2 rfl
    obtain ⟨m, -, hm⟩ := List.mem_map.1 (hmsgs ▸ hmem)
    exact (loud.parse_ok_iff.1 ⟨m, hm.symm⟩) loud_oversize

-- ==== every content

namespace ReadBuffer

variable {b : ReadBuffer}

/-- The first place of the magic in the data. -/
def FirstMagic (bs : List UInt8) (i : Nat) : Prop :=
  ipcMagic <+: bs.drop i ∧ ∀ k < i, ¬ ipcMagic <+: bs.drop k

theorem FirstMagic.front (h : ipcMagic <+: bs) : FirstMagic bs 0 :=
  ⟨h, fun k hk => absurd hk (Nat.not_lt_zero k)⟩

theorem FirstMagic.unique {j : Nat} (hi : FirstMagic bs i) (hj : FirstMagic bs j) : i = j := by
  rcases Nat.lt_trichotomy i j with h | h | h
  · exact absurd hi.1 (hj.2 i h)
  · exact h
  · exact absurd hj.1 (hi.2 j h)

theorem lt_of_magic {k : Nat} (h : ipcMagic <+: b.bytes.drop k) : k + 1 < b.len := by
  have hlen := h.length_le
  rw [List.length_drop, length_bytes] at hlen
  have hmagic : ipcMagic.length = 2 := rfl
  omega

/-- The loop of `resync` finds the first place of the magic from `i`
on. -/
theorem findMagic_spec (fuel i : Nat) (hfuel : b.len ≤ i + 1 + fuel) :
    (∃ j, b.findMagic fuel i = .ok (some j) ∧ i ≤ j ∧ ipcMagic <+: b.bytes.drop j
        ∧ ∀ k, i ≤ k → k < j → ¬ ipcMagic <+: b.bytes.drop k)
      ∨ (b.findMagic fuel i = .ok none
        ∧ ∀ k, i ≤ k → ¬ ipcMagic <+: b.bytes.drop k) := by
  induction fuel generalizing i with
  | zero =>
    refine .inr ⟨rfl, fun k hk h => ?_⟩
    have := lt_of_magic h
    omega
  | succ fuel ih =>
    unfold findMagic
    by_cases hi : i + 1 < b.len
    · have hcap := b.len_le
      have hget : ∀ j, j < b.len → whole.get b.buf j = .ok (b.buf j) := by
        intro j hj
        rw [Slice.get_eq (show j < whole.len from Nat.lt_of_lt_of_le hj hcap)]
        show Except.ok (b.buf (0 + j)) = _
        rw [Nat.zero_add]
      rw [if_pos hi, hget i (by omega), hget (i + 1) hi]
      show (∃ j, (if [b.buf i, b.buf (i + 1)] = ipcMagic then _ else _) = _ ∧ _)
        ∨ ((if [b.buf i, b.buf (i + 1)] = ipcMagic then _ else _) = _ ∧ _)
      by_cases hm : [b.buf i, b.buf (i + 1)] = ipcMagic
      · rw [if_pos hm]
        exact .inl ⟨i, rfl, Nat.le_refl i, (magic_iff hi).1 hm,
          fun k h₁ h₂ => absurd h₂ (Nat.not_lt.2 h₁)⟩
      · rw [if_neg hm]
        have hno : ¬ ipcMagic <+: b.bytes.drop i := fun h => hm ((magic_iff hi).2 h)
        have hstep : ∀ k, i ≤ k → i ≠ k → i + 1 ≤ k := by omega
        rcases ih (i + 1) (by omega) with ⟨j, hj, hij, hmj, hbefore⟩ | hbad
        · refine .inl ⟨j, hj, by omega, hmj, fun k h₁ h₂ => ?_⟩
          by_cases hk : i = k
          · exact hk ▸ hno
          · exact hbefore k (hstep k h₁ hk) h₂
        · refine .inr ⟨hbad.1, fun k h₁ => ?_⟩
          by_cases hk : i = k
          · exact hk ▸ hno
          · exact hbad.2 k (hstep k h₁ hk)
    · rw [if_neg hi]
      refine .inr ⟨rfl, fun k hk h => ?_⟩
      have := lt_of_magic h
      omega

/-- The content of the buffer is a log request with a level above 255,
behind bytes that `resync` skips. -/
def Poisoned (bs : List UInt8) : Prop :=
  ∃ junk p rest, bs = junk ++ (frame p ++ rest) ∧ p.length ≤ maxMessageSize
    ∧ (∀ i < junk.length, ¬ ipcMagic <+: bs.drop i) ∧ OversizeLevel p

/-- With the magic in front, the frame there stops the process, or none
does. -/
theorem nextMessage_error_iff (hm : ipcMagic <+: b.bytes) : (∃ e, b.nextMessage = .error e) ↔
    ∃ p rest, b.bytes = frame p ++ rest ∧ p.length ≤ maxMessageSize
      ∧ OversizeLevel p := by
  refine ⟨?_, fun ⟨p, rest, hb, hp, h⟩ => nextMessage_oversize hb hp h⟩
  rintro ⟨e, he⟩
  by_cases hhead : b.len < headerSize
  · rw [nextMessage_short hhead] at he
    cases he
  rw [nextMessage_magic (Nat.not_lt.1 hhead) hm] at he
  by_cases hbig : maxMessageSize < announced b.bytes
  · rw [takePayload, if_pos hbig] at he
    cases he
  by_cases hshort : b.len < headerSize + announced b.bytes
  · rw [takePayload_short (Nat.not_lt.1 hbig) hshort] at he
    cases he
  have hlen := Nat.not_lt.1 hshort
  obtain ⟨payload, b', hptr, hbytes, -, hout⟩ := takePayload_whole (Nat.not_lt.1 hbig) hlen
  obtain ⟨p, rest, hp, hpb, hframe⟩ :=
    frame_of_announced hm (by rw [length_bytes]; exact hlen)
  refine ⟨p, rest, hframe, by omega, ?_⟩
  rw [hpb, ← hbytes, ← parse_error_iff]
  rw [hout] at he
  cases hparse : parseMessage b.buf payload with
  | ok m =>
    rw [hparse] at he
    cases he
  | error e => exact ⟨e, rfl⟩

/-- `resync` moves the first magic behind the front to the front. -/
theorem resync_spec (hno : ¬ ipcMagic <+: b.bytes) :
    (∃ i b₁, b.resync = .ok (some b₁) ∧ FirstMagic b.bytes i ∧ 0 < i
        ∧ Compacted b i b₁)
      ∨ (b.resync = .ok none ∧ ∀ i, ¬ FirstMagic b.bytes i) := by
  unfold resync
  rcases findMagic_spec (b := b) b.len 1 (by omega) with ⟨i, hi, hpos, hm, hbefore⟩ | hbad
  · have hlt := lt_of_magic hm
    obtain ⟨b₁, b₂, h₁, h₂, hcompact⟩ := copyToFront_shrink (b := b) (n := i) (by omega)
    refine .inl ⟨i, b₂, ?_, ⟨hm, fun k hk => ?_⟩, hpos, hcompact⟩
    · rw [hi]
      show (b.copyToFront i).bind _ = _
      rw [h₁]
      show (b₁.shrink i).bind _ = _
      rw [h₂]
      rfl
    · cases k with
      | zero => exact hno
      | succ k => exact hbefore (k + 1) (Nat.succ_pos k) hk
  · rw [hbad.1]
    refine .inr ⟨rfl, fun i hi => ?_⟩
    cases i with
    | zero => exact hno hi.1
    | succ i => exact hbad.2 (i + 1) (Nat.succ_pos i) hi.1

/-- Without the magic in front, the buffer is cut to the first one, or
emptied. -/
theorem nextMessage_resync (hlen : headerSize ≤ b.len) (hno : ¬ ipcMagic <+: b.bytes) :
    (∃ (i : Nat) (b₁ : ReadBuffer), FirstMagic b.bytes i ∧ 0 < i ∧ b₁.bytes = b.bytes.drop i
        ∧ b.nextMessage = b₁.nextMessage)
      ∨ (∀ i, ¬ FirstMagic b.bytes i)
        ∧ b.nextMessage = .ok (none, b.clear.discard .noMagic) := by
  have hhead : headerSize = 6 := rfl
  have hmagic : [b.buf 0, b.buf 1] ≠ ipcMagic := fun h =>
    hno ((magic_iff (by omega)).1 h)
  obtain ⟨fuel, hfuel⟩ : ∃ fuel, b.len = fuel + 1 := ⟨b.len - 1, by omega⟩
  rw [nextMessage, hfuel, nextWithin, if_neg (Nat.not_lt.2 hlen), if_pos hmagic]
  rcases resync_spec hno with ⟨i, b₁, hb₁, hfirst, hpos, hcompact⟩ | ⟨hnone, hno⟩
  · have hbytes : (b₁.discard .resync).bytes = b.bytes.drop i := hcompact.bytes
    rw [hb₁]
    exact .inl ⟨i, _, hfirst, hpos, hbytes, nextWithin_eq (hbytes ▸ hfirst.1) (by omega)⟩
  · rw [hnone]
    exact .inr ⟨hno, rfl⟩

theorem nextMessage_emptied (hlen : headerSize ≤ b.len) (hno : ∀ i, ¬ FirstMagic b.bytes i) :
    b.nextMessage = .ok (none, b.clear.discard .noMagic) := by
  rcases nextMessage_resync hlen fun h => hno 0 (.front h) with ⟨i, -, hfirst, -⟩ | ⟨-, h⟩
  · exact absurd hfirst (hno i)
  · exact h

/-- A buffer with its first magic behind the front is cut to it. -/
theorem nextMessage_found (hlen : headerSize ≤ b.len)
    (hfirst : FirstMagic b.bytes i) (hpos : 0 < i) :
    ∃ b₁ : ReadBuffer, b₁.bytes = b.bytes.drop i ∧ b.nextMessage = b₁.nextMessage := by
  rcases nextMessage_resync hlen (hfirst.2 0 hpos) with ⟨j, b₁, hfirst', -, h⟩ | ⟨hnone, -⟩
  · cases hfirst.unique hfirst'
    exact ⟨b₁, h⟩
  · exact absurd hfirst (hnone i)

/-- The frame that stops the process is the one at the first magic. -/
theorem Poisoned.iff_first (hi : FirstMagic bs i) :
    Poisoned bs ↔ ∃ p rest, bs.drop i = frame p ++ rest
      ∧ p.length ≤ maxMessageSize ∧ OversizeLevel p := by
  constructor
  · rintro ⟨junk, p, rest, hbs, hp, hjunk, hpoison⟩
    have hdrop : bs.drop junk.length = frame p ++ rest := by rw [hbs, List.drop_left]
    have hfirst : FirstMagic bs junk.length := ⟨hdrop ▸ magic_frame p rest, hjunk⟩
    exact ⟨p, rest, hi.unique hfirst ▸ hdrop, hp, hpoison⟩
  · rintro ⟨p, rest, hdrop, hp, hpoison⟩
    have hlen : (bs.take i).length = i := by
      rw [List.length_take]
      refine Nat.min_eq_left ?_
      have h := hi.1.length_le
      rw [List.length_drop] at h
      have hmagic : ipcMagic.length = 2 := rfl
      omega
    refine ⟨bs.take i, p, rest, ?_, hp, ?_, hpoison⟩
    · rw [← hdrop, List.take_append_drop]
    · rw [hlen]
      exact hi.2

/-- The log request alone in the buffer. -/
theorem loud_stops : ∃ e, ((ReadBuffer.new fun _ => 0).fill loud.frame (by decide)).nextMessage
    = .error e :=
  nextMessage_oversize ((bytes_fill _).trans (List.append_nil _).symm) loud.2
    loud_oversize

/-- A call of `nextMessage` returns, whatever the buffer holds, exactly
when the content is not poisoned. -/
theorem nextMessage_ok_iff (b : ReadBuffer) :
    (∃ out, b.nextMessage = .ok out) ↔ ¬ Poisoned b.bytes := by
  have herror : (∃ out, b.nextMessage = .ok out) ↔ ¬ ∃ e, b.nextMessage = .error e := by
    cases b.nextMessage with
    | ok out => simp
    | error e => simp
  rw [herror, not_iff_not]
  by_cases hm : ipcMagic <+: b.bytes
  · rw [Poisoned.iff_first (.front hm)]
    exact nextMessage_error_iff hm
  by_cases hlen : b.len < headerSize
  · rw [nextMessage_short hlen]
    refine iff_of_false ?_ ?_
    · rintro ⟨e, he⟩
      cases he
    · rintro ⟨junk, p, rest, hbs, -⟩
      have hlength := congrArg List.length hbs
      rw [length_bytes, List.length_append, List.length_append, length_frame] at hlength
      omega
  have hfull := Nat.not_lt.1 hlen
  rcases nextMessage_resync hfull hm with ⟨i, b₁, hfirst, -, hbytes, hnext⟩ | ⟨hnone, hnext⟩
  · rw [hnext, Poisoned.iff_first hfirst, ← hbytes]
    exact nextMessage_error_iff (hbytes ▸ hfirst.1)
  · rw [hnext]
    refine iff_of_false ?_ ?_
    · rintro ⟨e, he⟩
      cases he
    · rintro ⟨junk, p, rest, hbs, -, hjunk, -⟩
      refine hnone junk.length ⟨?_, hjunk⟩
      rw [hbs, List.drop_left]
      exact magic_frame p rest

end ReadBuffer

-- ==== log texts

/-- What the caller sees of a log request: its text, overwritten by the
bytes that moved to the front. -/
theorem nextMessage_log {b : ReadBuffer} {p rest text : List UInt8} {level off : Nat}
    (hb : b.bytes = frame p ++ rest) (hp : p.length ≤ maxMessageSize)
    (hmean : Says p (.logToKmsg level text off)) (hlevel : level < 256) :
    ∃ t b', b.nextMessage = .ok (some (.logToKmsg (UInt8.ofNat level) t), b')
      ∧ ∀ i, (t.bytes b'.buf)[i]? = if i < text.length
        then (if headerSize + off + i < rest.length then rest[headerSize + off + i]?
          else text[i]?) else none := by
  obtain ⟨payload, b', hptr, hbytes, hcompact, hout⟩ := ReadBuffer.nextMessage_frame hb hp
  obtain ⟨-, t, ht, hloc⟩ | ⟨hbig, -⟩ := parse_meaning (hbytes ▸ hmean)
  · rw [ht] at hout
    refine ⟨t, b', hout, fun i => ?_⟩
    have hlen : t.len = text.length := by rw [← Slice.length_bytes b.buf, hloc.2]
    have hrest : b.len - (frame p).length = rest.length := by
      rw [← ReadBuffer.length_bytes, hb, List.length_append, Nat.add_sub_cancel_left]
    rw [Slice.getElem?_bytes, hlen, hloc.1, hptr]
    split
    · next hi =>
      rw [hcompact.2.2, hrest]
      split
      · next hmoved =>
        have hget := ReadBuffer.getElem?_bytes b
          ((frame p).length + (headerSize + off + i))
        rw [if_pos (by omega), hb, List.getElem?_append_right (Nat.le_add_right _ _),
          Nat.add_sub_cancel_left] at hget
        exact hget.symm
      · have hget := Slice.getElem?_bytes b.buf t i
        rw [hloc.2, if_pos (by omega), hloc.1, hptr] at hget
        exact hget.symm
    · rfl
  · omega

/-- The caller reads the text of a log request exactly when the bytes
that moved over it are its own. -/
theorem log_text_intact_iff (b : ReadBuffer) {p rest text : List UInt8}
    {level off : Nat} (hb : b.bytes = frame p ++ rest)
    (hp : p.length ≤ maxMessageSize) (hmean : Says p (.logToKmsg level text off)) :
    (∃ t b', b.nextMessage = .ok (some (.logToKmsg (UInt8.ofNat level) t), b')
        ∧ t.bytes b'.buf = text)
      ↔ level < 256 ∧ ∀ i < text.length, headerSize + off + i < rest.length →
        rest[headerSize + off + i]? = text[i]? := by
  by_cases hlevel : level < 256
  · obtain ⟨t, b', hout, hget⟩ := nextMessage_log hb hp hmean hlevel
    constructor
    · rintro ⟨t', b'', hout', htext⟩
      rw [hout] at hout'
      injection hout' with hout'
      injection hout' with hmsg hbuf
      injection hmsg with hmsg
      injection hmsg with _ ht
      subst ht hbuf
      refine ⟨hlevel, fun i hi hmoved => ?_⟩
      have h := hget i
      rw [htext, if_pos hi, if_pos hmoved] at h
      exact h.symm
    · rintro ⟨-, hsame⟩
      refine ⟨t, b', hout, List.ext_getElem? fun i => ?_⟩
      rw [hget]
      split
      · next hi =>
        split
        · next hmoved => exact hsame i hi hmoved
        · rfl
      · next hi => rw [List.getElem?_eq_none (Nat.not_lt.1 hi)]
  · refine iff_of_false ?_ fun h => hlevel h.1
    rintro ⟨t, b', hout, -⟩
    obtain ⟨e, he⟩ := ReadBuffer.nextMessage_oversize hb hp
      ⟨level, text, off, hmean, Nat.not_lt.1 hlevel⟩
    rw [he] at hout
    cases hout

/-- A log request of svmgr. -/
def logged (message : String) : Common.Message :=
  { id := 0, kind := .event, body := .logToKmsg 6 message }

theorem logged_meaning (message : String)
    (h : (MessagePack.encode (logged message).toDatum).length ≤ maxMessageSize) :
    Says (MessagePack.encode (logged message).toDatum) (.logToKmsg 6 (utf8 message)
      (bodyOffset (logged message) + logOffset 6 (utf8 message))) := by
  have hmean := @says_logToKmsg (logged message) 6 message rfl (Common.Message.fits h)
  rwa [show (6 : UInt8).toNat = 6 from rfl] at hmean

/-- A log request in the buffer, and what follows it. -/
def logBuffer (rest : List UInt8) (h : rest.length ≤ 100) : ReadBuffer :=
  (ReadBuffer.new fun _ => 0).fill
    (frame (MessagePack.encode (logged "disk full").toDatum) ++ rest) (by
      have hlen : (MessagePack.encode (logged "disk full").toDatum).length = 58 := rfl
      have hcap : capacity = 65542 := rfl
      have hhead : headerSize = 6 := rfl
      have hnew : (ReadBuffer.new fun _ => 0).len = 0 := rfl
      rw [hnew, List.length_append, length_frame, hlen]
      omega)

/-- Nothing but the start of another frame follows. -/
theorem single_log_intact : ∃ t b', (logBuffer [0x44] (by decide)).nextMessage
      = .ok (some (.logToKmsg 6 t), b')
    ∧ t.bytes b'.buf = utf8 "disk full" :=
  (log_text_intact_iff _ (ReadBuffer.bytes_fill _) (by decide)
    (logged_meaning "disk full" (by decide))).2 ⟨by decide, by decide⟩

/-- Two log requests: the text of the first is read as that of the
second. -/
theorem second_log_overwrites :
    ∃ t b', (logBuffer (frame (MessagePack.encode (logged "all is ok").toDatum))
        (by decide)).nextMessage = .ok (some (.logToKmsg 6 t), b')
      ∧ t.bytes b'.buf ≠ utf8 "disk full" := by
  obtain ⟨t, b', hout, hget⟩ := nextMessage_log
    (b := logBuffer (frame (MessagePack.encode (logged "all is ok").toDatum)) (by decide))
    (ReadBuffer.bytes_fill _) (by decide) (logged_meaning "disk full" (by decide)) (by decide)
  refine ⟨t, b', hout, fun h => ?_⟩
  have hfirst := hget 0
  rw [h] at hfirst
  revert hfirst
  decide

end Dynamod.Init
