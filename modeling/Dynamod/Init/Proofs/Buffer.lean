/-
The read buffer of init against the byte stream.

`takeFrame_eq` says once what the buffer does with the frame at its
front: nothing while it is incomplete, and otherwise hand its payload
to the parser and move the bytes behind it to the front. The array
behind the moved bytes keeps what it held (`Compacted`), which is
what a slice into it shows afterwards.
-/
import Dynamod.Init.Proofs.Parse
import Dynamod.Lib.Frames

namespace Dynamod.Init

open Lib MessagePack Msgpack

variable {bs p rest chunk : List UInt8} {n : Nat}

/-- A valid frame around a payload. -/
def frame (payload : List UInt8) : List UInt8 :=
  ipcMagic ++ (toLE 4 payload.length ++ payload)

@[simp] theorem length_frame (p : List UInt8) : (frame p).length = headerSize + p.length := by
  simp [frame, ipcMagic, headerSize]
  omega

theorem magic_frame (p rest : List UInt8) : ipcMagic <+: frame p ++ rest := by
  rw [frame, List.append_assoc]
  exact List.prefix_append _ _

namespace ReadBuffer

variable {b : ReadBuffer}

@[simp] theorem length_bytes (b : ReadBuffer) : b.bytes.length = b.len := by
  simp [bytes]

theorem getElem?_bytes (b : ReadBuffer) (i : Nat) :
    b.bytes[i]? = if i < b.len then some (b.buf i) else none := by
  unfold bytes
  rw [List.getElem?_map]
  split
  · next h => rw [List.getElem?_range h]; rfl
  · next h => rw [List.getElem?_eq_none (by simpa using h)]; rfl

theorem bytes_eq_of (hlen : b.len = bs.length)
    (h : ∀ i < b.len, some (b.buf i) = bs[i]?) : b.bytes = bs := by
  refine List.ext_getElem? fun i => ?_
  rw [getElem?_bytes]
  split
  · next hi => exact h i hi
  · next hi => rw [List.getElem?_eq_none (by omega)]

theorem whole_sub {a c : Nat} (hac : a ≤ c) (hc : c ≤ b.len) :
    ∃ t : Slice, whole.sub a c = .ok t ∧ t.ptr = a ∧ t.len = c - a
      ∧ t.bytes b.buf = (b.bytes.drop a).take (c - a) := by
  obtain ⟨t, ht, hp, hl, -⟩ := Slice.sub_ok (s := whole) hac
    (Nat.le_trans hc b.len_le)
  have hp : t.ptr = a := hp.trans (Nat.zero_add a)
  refine ⟨t, ht, hp, hl, List.ext_getElem? fun i => ?_⟩
  rw [Slice.getElem?_bytes, List.getElem?_take, List.getElem?_drop, getElem?_bytes, hp, hl]
  split
  · next hi => rw [if_pos (by omega)]
  · rfl

/-- Drop `n` bytes at the front; the array behind the data stays. -/
def Compacted (b : ReadBuffer) (n : Nat) (b' : ReadBuffer) : Prop :=
  b'.len = b.len - n ∧ b'.discards = b.discards
    ∧ ∀ a, b'.buf a = if a < b.len - n then b.buf (n + a) else b.buf a

theorem Compacted.bytes {b' : ReadBuffer} (h : Compacted b n b') : b'.bytes = b.bytes.drop n := by
  obtain ⟨hlen, -, hbuf⟩ := h
  refine bytes_eq_of (by simp [hlen]) fun i hi => ?_
  rw [hbuf, if_pos (by omega), List.getElem?_drop, getElem?_bytes,
    if_pos (by omega)]

theorem copyToFront_shrink (hn : n ≤ b.len) :
    ∃ b₁ b', b.copyToFront n = .ok b₁ ∧ b₁.shrink n = .ok b'
      ∧ Compacted b n b' := by
  obtain ⟨t, ht, hp, hl, -⟩ := whole_sub hn (Nat.le_refl b.len)
  unfold copyToFront
  rw [ht]
  refine ⟨_, _, rfl, if_pos hn, rfl, rfl, fun a => ?_⟩
  show copyForwards b.buf 0 t.ptr t.len a = _
  rw [copyForwards_eq _ (Nat.zero_le _), hp, hl, Nat.sub_zero, Nat.zero_add]
  by_cases ha : a < b.len - n
  · rw [if_pos ⟨Nat.zero_le _, ha⟩, if_pos ha]
  · rw [if_neg (fun h => ha h.2), if_neg ha]

theorem copyRest_shrink (hn : n ≤ b.len) : ∃ b₁ b', b.copyRest n = .ok b₁ ∧ b₁.shrink n = .ok b'
    ∧ Compacted b n b' := by
  unfold copyRest
  split
  · exact copyToFront_shrink hn
  · next h =>
    refine ⟨_, _, rfl, if_pos hn, rfl, rfl, fun a => ?_⟩
    rw [if_neg (by omega)]

/-- The length a header announces. -/
def announced (bs : List UInt8) : Nat := leNat ((bs.drop 2).take 4)

theorem takeFrame_eq (hlen : headerSize ≤ b.len) :
    b.takeFrame = b.takePayload (announced b.bytes) := by
  obtain ⟨f, hf, -, -, hfb⟩ := whole_sub (b := b) (a := 2) (c := 6) (by decide) hlen
  unfold takeFrame
  rw [hf]
  show b.takePayload (leNat (f.bytes b.buf)) = _
  rw [hfb]
  rfl

private theorem addWidth_total (hn : n ≤ maxMessageSize) :
    addWidth 32 headerSize n = .ok (headerSize + n) := by
  have hmax : maxMessageSize = 65536 := rfl
  have hhead : headerSize = 6 := rfl
  exact addWidth_eq (by omega)

/-- An incomplete frame stays where it is. -/
theorem takePayload_short (hn : n ≤ maxMessageSize)
    (hlen : b.len < headerSize + n) : b.takePayload n = .ok (none, b) := by
  unfold takePayload
  rw [if_neg (Nat.not_lt.2 hn), addWidth_total hn]
  exact if_pos hlen

/-- A complete frame is parsed and the bytes behind it move to the
front. -/
theorem takePayload_whole (hn : n ≤ maxMessageSize) (hlen : headerSize + n ≤ b.len) :
    ∃ (payload : Slice) (b' : ReadBuffer), payload.ptr = headerSize
      ∧ payload.bytes b.buf = (b.bytes.drop headerSize).take n
      ∧ Compacted b (headerSize + n) b'
      ∧ b.takePayload n
        = (parseMessage b.buf payload).bind fun msg => .ok (some msg, b') := by
  obtain ⟨payload, hpayload, hptr, -, hbytes⟩ :=
    whole_sub (Nat.le_add_right headerSize n) hlen
  obtain ⟨b₁, b', hb₁, hb', hcompact⟩ := copyRest_shrink hlen
  rw [Nat.add_sub_cancel_left] at hbytes
  refine ⟨payload, b', hptr, hbytes, hcompact, ?_⟩
  unfold takePayload
  rw [if_neg (Nat.not_lt.2 hn), addWidth_total hn]
  show (if b.len < headerSize + n then _ else _) = _
  rw [if_neg (Nat.not_lt.2 hlen), hpayload]
  show (parseMessage b.buf payload).bind _ = _
  refine congrArg _ (funext fun msg => ?_)
  rw [hb₁]
  show (b₁.shrink (headerSize + n)).bind _ = _
  rw [hb']
  rfl

-- ==== whole frames

/-- The length in the header of a frame, read from any part of it that
has the header. -/
theorem announced_of_frame (hp : p.length ≤ maxMessageSize)
    (hlen : headerSize ≤ bs.length) (h : bs <+: frame p ++ rest) : announced bs = p.length := by
  obtain ⟨t, ht⟩ := h
  have hhead : headerSize = 6 := rfl
  have hmax : maxMessageSize = 65536 := rfl
  have hfield : (bs.drop 2).take 4 = toLE 4 p.length := by
    have htake : ((bs ++ t).drop 2).take 4 = (bs.drop 2).take 4 := by
      rw [List.drop_append_of_le_length (by omega),
        List.take_append_of_le_length (by rw [List.length_drop]; omega)]
    rw [← htake, ht]
    show ((toLE 4 p.length ++ p) ++ rest).take 4 = _
    rw [List.append_assoc, List.take_append_of_le_length (by simp),
      List.take_of_length_le (by simp)]
  rw [announced, hfield, leNat_toLE (by omega)]

/-- Behind the magic, a header and as many bytes as it announces are a
frame. -/
theorem frame_of_announced (hm : ipcMagic <+: bs) (hlen : headerSize + announced bs ≤ bs.length) :
    ∃ p rest, p.length = announced bs ∧ p = (bs.drop headerSize).take (announced bs)
      ∧ bs = frame p ++ rest := by
  have hhead : headerSize = 6 := rfl
  have hp : ((bs.drop headerSize).take (announced bs)).length = announced bs := by
    rw [List.length_take, List.length_drop]
    omega
  refine ⟨_, bs.drop (headerSize + announced bs), hp, rfl, ?_⟩
  obtain ⟨t, rfl⟩ := hm
  have hdrop : (ipcMagic ++ t).drop 2 = t := rfl
  have hfield : toLE 4 (announced (ipcMagic ++ t)) = t.take 4 := by
    have hfour : (t.take 4).length = 4 := by
      rw [List.length_append] at hlen
      have : ipcMagic.length = 2 := rfl
      rw [List.length_take]
      omega
    have h := toLE_leNat (t.take 4)
    rw [hfour] at h
    exact h
  rw [frame, hp, hfield]
  show ipcMagic ++ t = ipcMagic ++ (t.take 4 ++ (t.drop 4).take _) ++ _
  rw [List.append_assoc, List.append_assoc]
  refine congrArg _ ?_
  have hrest : (ipcMagic ++ t).drop (headerSize + announced (ipcMagic ++ t))
      = (t.drop 4).drop (announced (ipcMagic ++ t)) := by
    rw [← List.drop_drop]
    rfl
  rw [hrest, List.take_append_drop, List.take_append_drop]

theorem magic_iff {i : Nat} (hi : i + 1 < b.len) :
    [b.buf i, b.buf (i + 1)] = ipcMagic ↔ ipcMagic <+: b.bytes.drop i := by
  have hdrop : b.bytes.drop i
      = b.buf i :: b.buf (i + 1) :: b.bytes.drop (i + 2) := by
    have hget : ∀ j, j < b.len → b.bytes.drop j = b.buf j :: b.bytes.drop (j + 1) := by
      intro j hj
      have hj' : j < b.bytes.length := by rw [length_bytes]; exact hj
      have hx := getElem?_bytes b j
      rw [if_pos hj, List.getElem?_eq_getElem hj'] at hx
      injection hx with hx
      rw [List.drop_eq_getElem_cons hj', hx]
    rw [hget i (by omega), hget (i + 1) hi]
  rw [hdrop]
  simp [ipcMagic, List.cons_prefix_cons, eq_comm]

/-- With the magic in front, a round looks at the frame. -/
theorem nextWithin_magic (hlen : headerSize ≤ b.len) (hm : ipcMagic <+: b.bytes)
    {fuel : Nat} : nextWithin (fuel + 1) b = b.takePayload (announced b.bytes) := by
  have hhead : headerSize = 6 := rfl
  have hmagic : [b.buf 0, b.buf 1] = ipcMagic := (magic_iff (by omega)).2 hm
  rw [nextWithin, if_neg (Nat.not_lt.2 hlen), if_neg (not_not.2 hmagic), takeFrame_eq hlen]

theorem nextMessage_short (h : b.len < headerSize) : b.nextMessage = .ok (none, b) := by
  unfold nextMessage
  cases hb : b.len with
  | zero => rfl
  | succ fuel => rw [nextWithin, if_pos h]

/-- With the magic in front, `nextMessage` looks at the frame. -/
theorem nextMessage_magic (hlen : headerSize ≤ b.len) (hm : ipcMagic <+: b.bytes) :
    b.nextMessage = b.takePayload (announced b.bytes) := by
  obtain ⟨fuel, hfuel⟩ := Nat.exists_eq_add_one.2 (Nat.lt_of_lt_of_le (Nat.succ_pos 5) hlen)
  rw [nextMessage, hfuel, nextWithin_magic hlen hm]

/-- With the magic in front one round is all. -/
theorem nextWithin_eq {fuel : Nat} (hm : ipcMagic <+: b.bytes) (hfuel : 0 < fuel) :
    nextWithin fuel b = b.nextMessage := by
  obtain ⟨fuel, rfl⟩ := Nat.exists_eq_add_one.2 hfuel
  by_cases hlen : headerSize ≤ b.len
  · rw [nextWithin_magic hlen hm, nextMessage_magic hlen hm]
  · rw [nextMessage_short (Nat.not_le.1 hlen), nextWithin, if_pos (Nat.not_le.1 hlen)]

/-- A complete frame at the front is taken. -/
theorem nextMessage_frame (hb : b.bytes = frame p ++ rest) (hp : p.length ≤ maxMessageSize) :
    ∃ (payload : Slice) (b' : ReadBuffer), payload.ptr = headerSize
      ∧ payload.bytes b.buf = p ∧ Compacted b (frame p).length b'
      ∧ b.nextMessage
        = (parseMessage b.buf payload).bind fun msg => .ok (some msg, b') := by
  have hlen : b.len = headerSize + p.length + rest.length := by
    rw [← length_bytes, hb, List.length_append, length_frame]
  have hann : announced b.bytes = p.length :=
    announced_of_frame hp (by rw [length_bytes]; omega) ⟨[], by rw [List.append_nil, hb]⟩
  obtain ⟨payload, b', hptr, hbytes, hcompact, hout⟩ :=
    takePayload_whole (b := b) hp (by omega)
  rw [hb, frame] at hbytes
  refine ⟨payload, b', hptr, hbytes.trans ?_, by rwa [length_frame], ?_⟩
  · show ((toLE 4 p.length ++ p ++ rest).drop 4).take p.length = p
    rw [List.append_assoc, List.drop_append_of_le_length (by simp),
      List.drop_of_length_le (by simp), List.nil_append, List.take_left]
  · rw [nextMessage_magic (by omega) (hb ▸ magic_frame p rest), hann, hout]

/-- A log request with a level above 255 at the front stops the
process. -/
theorem nextMessage_oversize (hb : b.bytes = frame p ++ rest)
    (hp : p.length ≤ maxMessageSize) (h : OversizeLevel p) : ∃ e, b.nextMessage = .error e := by
  obtain ⟨payload, b', -, hbytes, -, hout⟩ := nextMessage_frame hb hp
  obtain ⟨e, he⟩ := (parse_error_iff b.buf payload).2 (hbytes ▸ h)
  rw [he] at hout
  exact ⟨e, hout⟩

/-- An incomplete frame is left where it is. -/
theorem nextMessage_pending (hp : p.length ≤ maxMessageSize)
    (hb : b.bytes <+: frame p) (hlen : b.len < (frame p).length) :
    b.nextMessage = .ok (none, b) := by
  by_cases hshort : b.len < headerSize
  · exact nextMessage_short hshort
  · have hge : headerSize ≤ b.len := Nat.not_lt.1 hshort
    have hhead : headerSize = 6 := rfl
    have hann : announced b.bytes = p.length :=
      announced_of_frame hp (by rw [length_bytes]; exact hge)
        (hb.trans (List.prefix_append _ []))
    have hm : ipcMagic <+: b.bytes :=
      List.prefix_of_prefix_length_le (List.prefix_append _ _) hb
        (by rw [length_bytes]; show 2 ≤ _; omega)
    rw [length_frame] at hlen
    rw [nextMessage_magic hge hm, hann, takePayload_short hp hlen]

end ReadBuffer

-- ==== a stream of frames

/-- A payload that a frame can carry. -/
abbrev Payload := { p : List UInt8 // p.length ≤ maxMessageSize }

variable {todo : List Payload}

namespace Payload

def frame (p : Payload) : List UInt8 := Init.frame p.1

/-- The place of a payload in the array while it is parsed. -/
def slice (p : Payload) : Slice :=
  ⟨headerSize, p.1.length, by
    have h := p.2
    have hmax : maxMessageSize = 65536 := rfl
    have hhead : headerSize = 6 := rfl
    omega⟩

/-- `parseMessage` on the payload, behind a header. -/
def parse (p : Payload) : Checked InitMessage :=
  parseMessage (store (fun _ => 0) headerSize p.1) p.slice

/-- The parser sees the payload wherever it stands behind a header. -/
theorem parse_eq (p : Payload) {mem : Mem} {s : Slice} (hptr : s.ptr = headerSize)
    (hb : s.bytes mem = p.1) : parseMessage mem s = p.parse :=
  parse_congr hptr (hb.trans (Slice.bytes_store (s := p.slice) _ rfl).symm)

theorem parse_ok_iff (p : Payload) : (∃ m, p.parse = .ok m) ↔ ¬ OversizeLevel p.1 := by
  have h := parse_error_iff (store (fun _ => 0) headerSize p.1) p.slice
  rw [show p.slice.bytes (store (fun _ => 0) headerSize p.1) = p.1 from
    Slice.bytes_store (s := p.slice) _ rfl] at h
  rw [← h]
  unfold parse
  cases parseMessage (store (fun _ => 0) headerSize p.1) p.slice with
  | ok m => simp
  | error e => simp

end Payload

namespace ReadBuffer

variable {b : ReadBuffer} {S : Type} (handle : S → Mem → InitMessage → S)

/-- Nothing is taken while the next frame is incomplete. -/
theorem nextMessage_none
    (h : Pending Payload.frame todo b.bytes) : b.nextMessage = .ok (none, b) := by
  cases todo with
  | nil =>
    have hlen : b.len = 0 := by
      rw [← length_bytes]
      exact congrArg List.length h
    exact nextMessage_short (hlen ▸ Nat.succ_pos 5)
  | cons p todo =>
    have hlen := h.2
    rw [length_bytes] at hlen
    exact nextMessage_pending p.2 h.1 hlen

/-- The whole frames in the buffer are handled in order, and the rest
stays. -/
theorem drainWithin_frames (done : List Payload) :
    ∀ (b : ReadBuffer) (s : S) (fuel : Nat) {rest : List UInt8},
      b.bytes = wire Payload.frame done ++ rest → Pending Payload.frame todo rest →
      done.length < fuel → (∀ p ∈ done, ¬ OversizeLevel p.1) →
      ∃ (steps : List (Mem × InitMessage)) (b' : ReadBuffer),
        steps.map (fun x => .ok x.2) = done.map Payload.parse
        ∧ b'.bytes = rest ∧ b'.discards = b.discards
        ∧ drainWithin handle fuel s b
          = .ok (steps.foldl (fun s x => handle s x.1 x.2) s, b') := by
  induction done with
  | nil =>
    intro b s fuel rest hb hrest hfuel _
    obtain ⟨fuel, rfl⟩ : ∃ k, fuel = k + 1 := ⟨fuel - 1, by omega⟩
    rw [wire_nil, List.nil_append] at hb
    refine ⟨[], b, rfl, hb, rfl, ?_⟩
    rw [drainWithin, nextMessage_none (hb ▸ hrest)]
    rfl
  | cons p done ih =>
    intro b s fuel rest hb hrest hfuel hok
    obtain ⟨fuel, rfl⟩ : ∃ k, fuel = k + 1 := ⟨fuel - 1, by omega⟩
    rw [wire_cons, List.append_assoc] at hb
    obtain ⟨payload, b₁, hptr, hbytes, hcompact, hout⟩ := nextMessage_frame hb p.2
    rw [p.parse_eq hptr hbytes] at hout
    obtain ⟨m, hm⟩ := p.parse_ok_iff.2 (hok p List.mem_cons_self)
    rw [hm] at hout
    have hb₁ : b₁.bytes = wire Payload.frame done ++ rest := by
      rw [hcompact.bytes, hb]
      exact List.drop_left
    obtain ⟨steps, b', hsteps, hb', hdis, hrun⟩ :=
      ih b₁ (handle s b₁.buf m) fuel hb₁ hrest
        (by rw [List.length_cons] at hfuel; omega)
        fun q hq => hok q (List.mem_cons_of_mem _ hq)
    refine ⟨(b₁.buf, m) :: steps, b', ?_, hb', hdis.trans hcompact.2.1, ?_⟩
    · rw [List.map_cons, List.map_cons, hsteps, hm]
    · rw [drainWithin, hout]
      exact hrun

/-- What handling a message keeps, taking all of them keeps. -/
theorem drainWithin_inv {P : S → Prop} (hP : ∀ {s mem m}, P s → P (handle s mem m)) (fuel : Nat) :
    ∀ {s s' : S} {b b' : ReadBuffer}, P s → drainWithin handle fuel s b = .ok (s', b') → P s' := by
  induction fuel with
  | zero =>
    intro s s' b b' hs h
    cases h
    exact hs
  | succ fuel ih =>
    intro s s' b b' hs h
    obtain ⟨⟨msg, b₁⟩, -, hrest⟩ := Checked.bind_ok h
    cases msg with
    | none =>
      cases hrest
      exact hs
    | some msg => exact ih (hP hs) hrest

theorem receive_inv {P : S → Prop} (hP : ∀ {s mem m}, P s → P (handle s mem m))
    {s s' : S} {b' : ReadBuffer} {answer : ReadAnswer} (hs : P s)
    (h : b.receive handle s answer = .ok (s', b')) : P s' := by
  unfold receive at h
  split at h
  · cases h
    exact hs
  · exact drainWithin_inv handle hP _ hs h

theorem length_le_wire (ps : List Payload) : ps.length ≤ (wire Payload.frame ps).length := by
  induction ps with
  | nil => exact Nat.le_refl _
  | cons p ps ih =>
    have hhead : headerSize = 6 := rfl
    rw [wire_cons, List.length_append, List.length_cons, Payload.frame, length_frame]
    omega

/-- A pending rest leaves room in the buffer. -/
theorem len_lt_capacity (h : Pending Payload.frame todo b.bytes) : b.len < capacity := by
  cases todo with
  | nil =>
    have hlen : b.len = 0 := by
      rw [← length_bytes]
      exact congrArg List.length h
    rw [hlen]
    decide
  | cons p todo =>
    have hlen := h.2
    have hp := p.2
    rw [length_bytes, Payload.frame, length_frame] at hlen
    unfold capacity
    omega

theorem bytes_fill {got : List UInt8} (h : b.len + got.length ≤ capacity) :
    (b.fill got h).bytes = b.bytes ++ got := by
  refine bytes_eq_of (by rw [List.length_append, length_bytes]; rfl) fun i hi => ?_
  have hi : i < b.len + got.length := hi
  show some (store b.buf b.len got i) = _
  rw [store_eq, List.getElem?_append, length_bytes, getElem?_bytes]
  by_cases hlt : i < b.len
  · rw [if_neg (by omega), if_pos hlt, if_pos hlt]
  · rw [if_pos (by omega), if_neg hlt, List.getElem?_eq_getElem (by omega)]
    rfl

theorem readFrom_data (hpos : 0 < chunk.length) (hfit : chunk.length ≤ capacity - b.len) :
    ∃ b', b.readFrom (.data chunk) = .ok b' ∧ b'.bytes = b.bytes ++ chunk
      ∧ b'.discards = b.discards := by
  refine ⟨b.fill chunk (by have := b.len_le; omega), ?_, bytes_fill _, rfl⟩
  unfold readFrom
  rw [if_neg (by omega)]
  simp only [List.take_of_length_le hfit]
  exact if_neg (by omega)

/-- A read that returns something: the messages are taken from the buffer
with the new bytes behind the old. -/
theorem receive_data (hpos : 0 < chunk.length) (hfit : chunk.length ≤ capacity - b.len) (s : S) :
    ∃ b₁ : ReadBuffer, b₁.bytes = b.bytes ++ chunk ∧ b₁.len = b.len + chunk.length
      ∧ b₁.discards = b.discards
      ∧ b.receive handle s (.data chunk) = drainWithin handle (b₁.len + 1) s b₁ := by
  obtain ⟨b₁, hread, hb₁, hdis₁⟩ := readFrom_data hpos hfit
  refine ⟨b₁, hb₁, ?_, hdis₁, ?_⟩
  · rw [← length_bytes, hb₁, List.length_append, length_bytes]
  · unfold receive
    rw [hread]
    rfl

/-- The frames of `todo` that `bytes` completes are handled in order, and
the buffer is left with a pending rest. -/
def Handles (todo : List Payload) (bytes : List UInt8) (discards : List Discard) (s : S)
    (out : Checked (S × ReadBuffer)) : Prop :=
  ∃ (done todo' : List Payload) (steps : List (Mem × InitMessage)) (b' : ReadBuffer),
    todo = done ++ todo' ∧ bytes = wire Payload.frame done ++ b'.bytes
      ∧ Pending Payload.frame todo' b'.bytes
      ∧ steps.map (fun x => .ok x.2) = done.map Payload.parse ∧ b'.discards = discards
      ∧ out = .ok (steps.foldl (fun s x => handle s x.1 x.2) s, b')

theorem handles_drainWithin (hb : b.bytes <+: wire Payload.frame todo)
    (hfuel : b.len < n) (hok : ∀ p ∈ todo, ¬ OversizeLevel p.1) (s : S) :
    Handles handle todo b.bytes b.discards s (drainWithin handle n s b) := by
  obtain ⟨done, todo', rest, rfl, hsplit, hrest⟩ := wire_split hb
  have hle := length_le_wire done
  have hlen := congrArg List.length hsplit
  rw [length_bytes, List.length_append] at hlen
  obtain ⟨steps, b', hsteps, hb', hdis, hrun⟩ := drainWithin_frames handle done b s n hsplit
    hrest (by omega) fun p hp => hok p (List.mem_append_left _ hp)
  exact ⟨done, todo', steps, b', rfl, by rw [hb', hsplit], hb' ▸ hrest, hsteps, hdis, hrun⟩

/-- One read. -/
theorem receive_frames (hb : b.bytes ++ chunk <+: wire Payload.frame todo)
    (hpos : 0 < chunk.length) (hfit : chunk.length ≤ capacity - b.len)
    (hok : ∀ p ∈ todo, ¬ OversizeLevel p.1) (s : S) :
    Handles handle todo (b.bytes ++ chunk) b.discards s (b.receive handle s (.data chunk)) := by
  obtain ⟨b₁, hb₁, -, hdis₁, hreceive⟩ := receive_data handle hpos hfit s
  rw [hreceive, ← hb₁, ← hdis₁]
  exact handles_drainWithin handle (hb₁ ▸ hb) (Nat.lt_succ_self _) hok s

end ReadBuffer

end Dynamod.Init
