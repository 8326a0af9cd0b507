/-
The channel behind garbage.

The stream is garbage and then frames, with no magic before the first
frame. Up to the read that completes the first magic, the buffer holds the
start of what is left of the stream. A buffer of less than a header waits;
one of a header or more is searched for the magic, cut to it if it is there
and emptied if not (`receive_short`, `receive_found`, `receive_emptied`).

The buffer is emptied even if its last byte is the first of the magic. So
the reads may cut the stream at any place but one: one byte into the first
frame, with at least five bytes of garbage still in the buffer
(`cutsMagic`).
-/
import Mathlib.Data.List.Infix
import Dynamod.Init.Proofs.Channel

namespace Dynamod.Init

open Lib MessagePack Msgpack

namespace ReadBuffer

-- ==== one read

variable {b : ReadBuffer} {S : Type} (handle : S → Mem → InitMessage → S)
  {chunk : List UInt8} (s : S)

theorem receive_short (hpos : 0 < chunk.length) (hfit : chunk.length ≤ capacity - b.len)
    (hlen : b.len + chunk.length < headerSize) :
    ∃ b', b.receive handle s (.data chunk) = .ok (s, b') ∧ b'.bytes = b.bytes ++ chunk := by
  obtain ⟨b₁, hb₁, hlen₁, -, hreceive⟩ := receive_data handle hpos hfit s
  refine ⟨b₁, ?_, hb₁⟩
  rw [hreceive, drainWithin, nextMessage_short (hlen₁ ▸ hlen)]
  rfl

/-- A header or more without a magic is dropped. -/
theorem receive_emptied (hpos : 0 < chunk.length) (hfit : chunk.length ≤ capacity - b.len)
    (hlen : headerSize ≤ b.len + chunk.length) (hno : ∀ i, ¬ FirstMagic (b.bytes ++ chunk) i) :
    ∃ b', b.receive handle s (.data chunk) = .ok (s, b') ∧ b'.bytes = [] := by
  obtain ⟨b₁, hb₁, hlen₁, -, hreceive⟩ := receive_data handle hpos hfit s
  refine ⟨b₁.clear.discard .noMagic, ?_, rfl⟩
  rw [hreceive, drainWithin, nextMessage_emptied (hlen₁ ▸ hlen) (hb₁ ▸ hno)]
  rfl

/-- Behind the magic that is found the frames are handled in order. -/
theorem receive_found {todo : List Payload} {i : Nat} (hpos : 0 < chunk.length)
    (hfit : chunk.length ≤ capacity - b.len) (hlen : headerSize ≤ b.len + chunk.length)
    (hfirst : FirstMagic (b.bytes ++ chunk) i) (hi : 0 < i)
    (hb : (b.bytes ++ chunk).drop i <+: wire Payload.frame todo)
    (hok : ∀ p ∈ todo, ¬ OversizeLevel p.1) :
    ∃ discards, Handles handle todo ((b.bytes ++ chunk).drop i) discards s
      (b.receive handle s (.data chunk)) := by
  obtain ⟨b₁, hb₁, hlen₁, -, hreceive⟩ := receive_data handle hpos hfit s
  obtain ⟨b₂, hb₂, hnext⟩ := nextMessage_found (hlen₁ ▸ hlen) (hb₁ ▸ hfirst) hi
  rw [hb₁] at hb₂
  have hlen₂ := congrArg List.length hb₂
  rw [length_bytes, List.length_drop, ← hb₁, length_bytes] at hlen₂
  rw [← hb₂] at hb ⊢
  refine ⟨b₂.discards, ?_⟩
  have hdrained := handles_drainWithin handle hb (n := b₁.len + 1) (by omega) hok s
  rw [drainWithin] at hdrained
  rw [hreceive, drainWithin, hnext]
  exact hdrained

end ReadBuffer

-- ==== the garbage

/-- Bytes before the frames in which no magic begins. -/
def Garbage (g : List UInt8) (todo : List Payload) : Prop :=
  ∀ i < g.length, ¬ ipcMagic <+: (g ++ wire Payload.frame todo).drop i

/-- Reads of the given sizes leave a buffer to be emptied that ends in the
first byte of the first frame. The buffer holds `held` bytes; from its
start on there are `garbage` bytes before the frame. -/
def cutsMagic : Nat → Nat → List Nat → Bool
  | _, _, [] => false
  | held, garbage, n :: sizes =>
    if held + n < headerSize then cutsMagic (held + n) garbage sizes
    else if held + n ≤ garbage then cutsMagic 0 (garbage - (held + n)) sizes
    else held + n = garbage + 1

variable {g bs : List UInt8} {todo : List Payload}

theorem Garbage.drop (h : Garbage g todo) (n : Nat) (hn : n ≤ g.length) :
    Garbage (g.drop n) todo := by
  intro i hi
  rw [List.length_drop] at hi
  rw [← List.drop_append_of_le_length hn, List.drop_drop]
  exact h (n + i) (by omega)

/-- There is no magic in what has come before the frames. -/
theorem Garbage.no_magic (h : Garbage g todo) (hbs : bs <+: g ++ wire Payload.frame todo)
    (hlen : bs.length ≤ g.length) (i : Nat) : ¬ ReadBuffer.FirstMagic bs i := by
  rintro ⟨hm, -⟩
  have hlength := hm.length_le
  have hmagic : ipcMagic.length = 2 := rfl
  rw [List.length_drop] at hlength
  exact h i (by omega) (hm.trans (hbs.drop i))

theorem Garbage.firstMagic (h : Garbage g todo) (hbs : bs <+: g ++ wire Payload.frame todo)
    (hlen : g.length + 2 ≤ bs.length) : ReadBuffer.FirstMagic bs g.length := by
  have hrest : bs.drop g.length <+: wire Payload.frame todo := by
    have hdrop := hbs.drop g.length
    rwa [List.drop_left] at hdrop
  refine ⟨?_, fun k hk hm => h k hk (hm.trans (hbs.drop k))⟩
  cases todo with
  | nil =>
    have hlength := hrest.length_le
    rw [List.length_drop, wire_nil, List.length_nil] at hlength
    omega
  | cons p todo =>
    refine List.prefix_of_prefix_length_le ?_ hrest ?_
    · rw [wire_cons]
      exact magic_frame p.1 _
    · rw [List.length_drop]
      show 2 ≤ _
      omega

-- ==== the run

/-- All the frames to come are returned, in order and once. -/
def Returns (chunks : List (List UInt8)) (msgs : List InitMessage) (b : ReadBuffer)
    (todo : List Payload) : Prop :=
  ∃ new b', receiveAll chunks (msgs, b) = .ok (msgs ++ new, b')
    ∧ new.map .ok = todo.map Payload.parse

variable {chunk : List UInt8} {chunks : List (List UInt8)} {msgs : List InitMessage}
  {b : ReadBuffer}

theorem returns_frames (hbytes : b.bytes ++ chunks.flatten = wire Payload.frame todo)
    (hshort : b.len < headerSize) (hfit : ReadsFit chunks (msgs, b))
    (hok : ∀ p ∈ todo, ¬ OversizeLevel p.1) : Returns chunks msgs b todo := by
  have hpending := pending_of_short ⟨_, hbytes⟩ (by rw [ReadBuffer.length_bytes]; exact hshort)
  obtain ⟨new, b', hrun, hnew, -, -⟩ := receiveAll_frames chunks hpending hbytes hfit hok
  exact ⟨new, b', hrun, hnew⟩

/-- The read that brings the whole magic of the first frame. -/
theorem returns_found (hg : Garbage g todo)
    (hall : (b.bytes ++ chunk) ++ chunks.flatten = g ++ wire Payload.frame todo)
    (hfit : ReadsFit (chunk :: chunks) (msgs, b)) (hnone : g ≠ [])
    (hfull : headerSize ≤ b.len + chunk.length) (hlate : g.length + 2 ≤ b.len + chunk.length)
    (hok : ∀ p ∈ todo, ¬ OversizeLevel p.1) : Returns (chunk :: chunks) msgs b todo := by
  obtain ⟨hpos, hroom, hnext⟩ := hfit
  have hlength : (b.bytes ++ chunk).length = b.len + chunk.length := by
    rw [List.length_append, ReadBuffer.length_bytes]
  have hfirst := hg.firstMagic ⟨_, hall⟩ (hlength ▸ hlate)
  have hstream : (b.bytes ++ chunk).drop g.length ++ chunks.flatten
      = wire Payload.frame todo := by
    rw [← List.drop_append_of_le_length (by omega), hall, List.drop_left]
  obtain ⟨discards, done, todo', steps, b', rfl, hsplit, hpending, hsteps, -, hrun⟩ :=
    ReadBuffer.receive_found collect msgs hpos hroom hfull hfirst
      (List.length_pos_iff.2 hnone) ⟨_, hstream⟩ hok
  rw [foldl_collect] at hrun
  rw [hsplit, wire_append, List.append_assoc] at hstream
  obtain ⟨new, b'', hrest, hnew, -, -⟩ :=
    receiveAll_frames chunks hpending (List.append_cancel_left hstream) (hnext _ hrun)
      fun p hp => hok p (List.mem_append_right _ hp)
  refine ⟨steps.map Prod.snd ++ new, b'', ?_, ?_⟩
  · rw [receiveAll_cons hrun, hrest, List.append_assoc]
  · rw [List.map_append, List.map_append, hnew, ← hsteps, List.map_map]
    rfl

/-- The reads that are left deliver the frames behind the garbage that is
left. -/
theorem returns_garbage (chunks : List (List UInt8)) :
    ∀ {g : List UInt8} {b : ReadBuffer}, Garbage g todo →
      b.bytes ++ chunks.flatten = g ++ wire Payload.frame todo →
      b.len < headerSize → ReadsFit chunks (msgs, b) →
      cutsMagic b.len g.length (chunks.map List.length) = false →
      (∀ p ∈ todo, ¬ OversizeLevel p.1) → Returns chunks msgs b todo := by
  induction chunks with
  | nil =>
    intro g b _ hall hshort _ _ _
    have htodo : todo = [] := by
      cases todo with
      | nil => rfl
      | cons p todo =>
        have hlength := congrArg List.length hall
        rw [List.flatten_nil, List.append_nil, ReadBuffer.length_bytes, List.length_append,
          wire_cons, List.length_append, Payload.frame, length_frame] at hlength
        omega
    exact ⟨[], b, by rw [List.append_nil]; rfl, by rw [htodo]; rfl⟩
  | cons chunk chunks ih =>
    intro g b hg hall hshort hfit hcut hok
    by_cases hnone : g = []
    · -- the buffer begins with a frame already
      rw [hnone, List.nil_append] at hall
      exact returns_frames hall hshort hfit hok
    rw [List.flatten_cons, ← List.append_assoc] at hall
    have hlength : (b.bytes ++ chunk).length = b.len + chunk.length := by
      rw [List.length_append, ReadBuffer.length_bytes]
    rw [List.map_cons, cutsMagic] at hcut
    have hread := hfit
    obtain ⟨hpos, hroom, hnext⟩ := hread
    by_cases hwait : b.len + chunk.length < headerSize
    · rw [if_pos hwait] at hcut
      obtain ⟨b', hrun, hb'⟩ := ReadBuffer.receive_short collect msgs hpos hroom hwait
      have hlen' : b'.len = b.len + chunk.length := by
        rw [← ReadBuffer.length_bytes, hb', hlength]
      rw [Returns, receiveAll_cons hrun]
      exact ih hg (hb' ▸ hall) (hlen' ▸ hwait) (hnext _ hrun) (hlen' ▸ hcut) hok
    rw [if_neg hwait] at hcut
    have hfull := Nat.not_lt.1 hwait
    by_cases hinside : b.len + chunk.length ≤ g.length
    · rw [if_pos hinside] at hcut
      have hno := hg.no_magic ⟨_, hall⟩ (hlength ▸ hinside)
      obtain ⟨b', hrun, hb'⟩ :=
        ReadBuffer.receive_emptied collect msgs hpos hroom hfull hno
      have hlen' : b'.len = 0 := by
        rw [← ReadBuffer.length_bytes, hb']
        rfl
      have hstream : b'.bytes ++ chunks.flatten
          = g.drop (b.len + chunk.length) ++ wire Payload.frame todo := by
        rw [hb', List.nil_append, ← List.drop_append_of_le_length hinside, ← hall,
          ← hlength, List.drop_left]
      rw [← List.length_drop, ← hlen'] at hcut
      rw [Returns, receiveAll_cons hrun]
      exact ih (hg.drop _ hinside) hstream (hlen' ▸ Nat.succ_pos 5) (hnext _ hrun) hcut hok
    · rw [if_neg hinside, decide_eq_false_iff_not] at hcut
      exact returns_found hg hall hfit hnone hfull (by omega) hok

/-- Behind garbage every frame is returned, in order and once, however the
stream is cut into reads, unless the reads cut the first magic or a frame
is a log request with a level above 255. -/
theorem frames_returned_behind_garbage (undef : Mem) (payloads : List Payload)
    (hg : Garbage g payloads) (hsplit : chunks.flatten = g ++ wire Payload.frame payloads)
    (hfit : ReadsFit chunks ([], .new undef))
    (hcut : cutsMagic 0 g.length (chunks.map List.length) = false)
    (hok : ∀ p ∈ payloads, ¬ OversizeLevel p.1) :
    ∃ msgs b, receiveAll chunks ([], .new undef) = .ok (msgs, b)
      ∧ msgs.map .ok = payloads.map Payload.parse :=
  returns_garbage chunks hg hsplit (Nat.succ_pos 5) hfit hcut hok

/-- Five bytes of garbage. -/
def noise : List UInt8 := [0, 0, 0, 0, 0]

theorem noise_garbage : Garbage noise [beat] := by
  unfold Garbage
  decide

/-- The garbage in one read and the frame in another. -/
theorem beat_behind_noise :
    ∃ msgs b, receiveAll [noise, beat.frame] ([], .new fun _ => 0) = .ok (msgs, b)
      ∧ msgs.map .ok = [beat].map Payload.parse := by
  apply frames_returned_behind_garbage
  · exact noise_garbage
  · decide
  · refine ⟨by decide, by decide, fun st hst => ?_⟩
    obtain ⟨b', hrun, hb'⟩ := ReadBuffer.receive_short (b := .new fun _ => 0) collect []
      (show 0 < noise.length by decide) (by decide) (by decide)
    cases hrun.symm.trans hst
    have hlen : b'.len = 5 := by
      rw [← ReadBuffer.length_bytes, hb']
      rfl
    refine ⟨by decide, ?_, fun _ _ => True.intro⟩
    rw [hlen]
    decide
  · decide
  · exact fun p hp => List.mem_singleton.1 hp ▸ beat_ok

/-- The same stream with the first byte of the frame in the first read. -/
def cutReads : List (List UInt8) := [noise ++ beat.frame.take 1, beat.frame.drop 1]

/-- Both reads are emptied: the first byte of the magic is dropped with the
garbage, and there is none in the rest of the frame. -/
theorem beat_lost_behind_noise : Garbage noise [beat] ∧ ¬ OversizeLevel beat.1
    ∧ cutReads.flatten = noise ++ wire Payload.frame [beat]
    ∧ ReadsFit cutReads ([], .new fun _ => 0)
    ∧ ∃ b, receiveAll cutReads ([], .new fun _ => 0) = .ok ([], b) := by
  have hfirst : Garbage (noise ++ beat.frame.take 1) [] := by
    unfold Garbage
    decide
  have hsecond : Garbage (beat.frame.drop 1) [] := by
    unfold Garbage
    decide
  obtain ⟨b₁, hrun₁, hb₁⟩ := ReadBuffer.receive_emptied (b := .new fun _ => 0) collect []
    (by decide) (by decide) (by decide)
    (hfirst.no_magic (List.prefix_append _ _) (Nat.le_refl _))
  have hlen₁ : b₁.len = 0 := by
    rw [← ReadBuffer.length_bytes, hb₁]
    rfl
  have hroom : (beat.frame.drop 1).length ≤ capacity - b₁.len := by
    rw [hlen₁]
    decide
  obtain ⟨b₂, hrun₂, -⟩ := ReadBuffer.receive_emptied collect [] (by decide) hroom
    (by rw [hlen₁]; decide)
    (by rw [hb₁]; exact hsecond.no_magic (List.prefix_append _ _) (Nat.le_refl _))
  refine ⟨noise_garbage, beat_ok, by decide, ⟨by decide, by decide, fun st hst => ?_⟩, b₂, ?_⟩
  · cases hrun₁.symm.trans hst
    exact ⟨by decide, hroom, fun _ _ => True.intro⟩
  · rw [cutReads, receiveAll_cons hrun₁, receiveAll_cons hrun₂]
    rfl

end Dynamod.Init
