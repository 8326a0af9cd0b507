/-
What svmgr hears from init.

init notes in its log what it sends, and the bytes it writes are the
frames of those messages (`writes_eq`). What svmgr holds and what is
still to come are the frames it has not yet taken, so `try_recv` finds
the next of them or less than a frame (`tryRecv_wire`): it never clears
its buffer, and takes one message after the other.
-/
import Dynamod.Common.Proofs.Receive
import Dynamod.Init.Proofs.Causes
import Dynamod.Init.Proofs.Codecs
import Dynamod.Lib.Frames
import Dynamod.Svmgr.Channels

-- ==== what init sends

namespace Dynamod.Init

open Lib
open Common (Message RmpSerde Frames)

/-- The message behind a note, if it is for this socket. -/
def Note.message (sock : Fd) : Note → Option Message
  | .heartbeatAck fd => if fd = sock then some (Init.heartbeatAck 0) else none
  | .shutdownSignal fd name =>
    if fd = sock then some (Init.shutdownSignal name) else none
  | _ => none

/-- What a sender writes. -/
def sentBytes : Checked (Option (List UInt8)) → List UInt8
  | .ok (some bytes) => bytes
  | _ => []

/-- What init writes to this socket where it makes the note. -/
def Note.writes (undef : Mem) (sock : Fd) : Note → List UInt8
  | .heartbeatAck fd => if fd = sock then sentBytes (sendHeartbeatAck undef 0) else []
  | .shutdownSignal fd name =>
    if fd = sock then sentBytes (sendShutdownSignal undef (utf8 name)) else []
  | _ => []

theorem Note.Named.fits {fd : Fd} {name : String} (h : (shutdownSignal fd name).Named) :
    headerSize + (MessagePack.encode (Init.shutdownSignal name).toDatum).length ≤ 256 := by
  simp only [Named, List.mem_cons, List.not_mem_nil, or_false] at h
  rcases h with rfl | rfl | rfl <;> decide

/-- What init writes is the frame of what it notes. -/
theorem Note.writes_eq (undef : Mem) (sock : Fd) {n : Note} (hn : n.Named) :
    n.writes undef sock = ((n.message sock).map fun m => sentBytes (sent m)).getD [] := by
  cases n with
  | heartbeatAck fd =>
    rw [writes, message, sendHeartbeatAck_eq]
    split_ifs <;> rfl
  | shutdownSignal fd name =>
    rw [writes, message, sendShutdownSignal_eq undef (length_of_fits hn.fits)]
    split_ifs <;> rfl
  | _ => rfl

variable {E D : Type} {rmp : RmpSerde E D}

theorem Note.frames (hrmp : rmp.StructMap) {sock : Fd} {n : Note} {m : Message}
    (hn : n.Named) (hm : n.message sock = some m) : Frames rmp m (sentBytes (sent m)) := by
  have hfits : headerSize + (MessagePack.encode m.toDatum).length ≤ 256 := by
    cases n with
    | heartbeatAck fd =>
      simp only [message] at hm
      split_ifs at hm
      cases hm
      exact heartbeatAck_fits 0
    | shutdownSignal fd name =>
      simp only [message] at hm
      split_ifs at hm
      cases hm
      exact hn.fits
    | _ => cases hm
  obtain ⟨bytes, hsent, hdecode⟩ := decode_sent hrmp hfits
  rw [hsent]
  exact Common.frames_of_decode hdecode

/-- The bytes of a part of the log are the frames of its messages. -/
theorem writes_wire (undef : Mem) (sock : Fd) {notes : List Note}
    (hnamed : ∀ n ∈ notes, n.Named) : notes.flatMap (Note.writes undef sock)
      = wire (fun m => sentBytes (sent m)) (notes.filterMap (Note.message sock)) := by
  induction notes with
  | nil => rfl
  | cons n notes ih =>
    obtain ⟨hn, hnotes⟩ := List.forall_mem_cons.1 hnamed
    rw [List.flatMap_cons, Note.writes_eq undef sock hn, ih hnotes, List.filterMap_cons]
    cases n.message sock <;> rfl

end Dynamod.Init

-- ==== what svmgr takes

namespace Dynamod.Svmgr.InitChannel

open Lib
open Common (Message RmpSerde Frames)

variable {E D : Type} {rmp : RmpSerde E D} {frame : Message → List UInt8}
  {ms : List Message} {buf : List UInt8} {answer : Except ReadError (List UInt8)}
  {answers : List (Except ReadError (List UInt8))}

/-- The bytes that an answer brings. -/
def piece : Except ReadError (List UInt8) → List UInt8
  | .ok bytes => bytes
  | .error _ => []

/-- The messages up to the first signal of a shutdown. -/
def upToSignal (ms : List Message) : List Message := ms.foldr handled []

theorem handled_prefix (m : Message) {as bs : List Message} (h : as <+: bs) :
    handled m as <+: handled m bs := by
  unfold handled
  split
  · exact List.prefix_rfl
  · exact List.cons_prefix_cons.2 ⟨rfl, h⟩

theorem tryDecode_wire (hframes : ∀ m ∈ ms, Frames rmp m (frame m))
    (h : buf <+: wire frame ms) : (tryDecode rmp ⟨buf⟩ = (⟨buf⟩, none) ∧ Pending frame ms buf)
      ∨ ∃ m ms' rest, ms = m :: ms' ∧ buf = frame m ++ rest
        ∧ tryDecode rmp ⟨buf⟩ = (⟨rest⟩, some m) := by
  cases ms with
  | nil =>
    cases List.prefix_nil.1 h
    exact .inl ⟨rfl, rfl⟩
  | cons m ms =>
    have hm := hframes m List.mem_cons_self
    rw [wire_cons] at h
    by_cases hlen : buf.length < (frame m).length
    · have hpart := List.prefix_of_prefix_length_le h (List.prefix_append _ _)
        (Nat.le_of_lt hlen)
      refine .inl ⟨?_, hpart, hlen⟩
      simp only [tryDecode, hm.decode_prefix hpart hlen]
    · obtain ⟨rest, rfl⟩ := List.prefix_of_prefix_length_le (List.prefix_append _ _) h
        (Nat.not_lt.1 hlen)
      refine .inr ⟨m, ms, rest, rfl, rfl, ?_⟩
      simp only [tryDecode, hm.decode_append rest, List.drop_left]

/-- What one call of `try_recv` does: nothing more than to keep the
bytes, or to take the next message. -/
theorem tryRecv_wire (hframes : ∀ m ∈ ms, Frames rmp m (frame m))
    (h : buf ++ piece answer <+: wire frame ms) :
    tryRecv rmp ⟨buf⟩ answer = (⟨buf ++ piece answer⟩, none)
      ∨ ∃ m ms' rest, ms = m :: ms' ∧ buf ++ piece answer = frame m ++ rest
        ∧ tryRecv rmp ⟨buf⟩ answer = (⟨rest⟩, some m) := by
  have hdecode := tryDecode_wire hframes h
  cases answer with
  | ok bytes =>
    cases bytes with
    | nil =>
      left
      rw [piece, List.append_nil]
      rfl
    | cons b bytes => exact hdecode.imp_left And.left
  | error e =>
    rw [piece, List.append_nil] at hdecode ⊢
    cases e with
    | wouldBlock => exact hdecode.imp_left And.left
    | other => exact .inl rfl

theorem serve_none {ch ch' : InitChannel} (h : tryRecv rmp ch answer = (ch', none)) :
    serve rmp ch (answer :: answers) = serve rmp ch' answers := by
  rw [serve, h]

theorem serve_some {ch ch' : InitChannel} {m : Message}
    (h : tryRecv rmp ch answer = (ch', some m)) :
    serve rmp ch (answer :: answers) = handled m (serve rmp ch' answers) := by
  rw [serve, h]

/-- Whatever the reads answer, the messages taken are the first ones. -/
theorem serve_prefix (answers : List (Except ReadError (List UInt8))) :
    ∀ {ms : List Message} {buf : List UInt8}, (∀ m ∈ ms, Frames rmp m (frame m)) →
      buf ++ answers.flatMap piece <+: wire frame ms →
      serve rmp ⟨buf⟩ answers <+: upToSignal ms := by
  induction answers with
  | nil => exact fun _ _ => List.nil_prefix
  | cons answer answers ih =>
    intro ms buf hframes h
    rw [List.flatMap_cons, ← List.append_assoc] at h
    rcases tryRecv_wire hframes ((List.prefix_append _ _).trans h) with
      hnone | ⟨m, ms, rest, rfl, hrest, hsome⟩
    · rw [serve_none hnone]
      exact ih hframes h
    · rw [serve_some hsome]
      rw [hrest, List.append_assoc, wire_cons] at h
      exact handled_prefix m (ih (List.forall_mem_cons.1 hframes).2
        ((List.prefix_append_right_inj _).1 h))

/-- Once all bytes are there, a poll for each message takes them all. -/
theorem serve_polls (n : Nat) :
    ∀ {ms : List Message}, (∀ m ∈ ms, Frames rmp m (frame m)) → ms.length ≤ n →
      serve rmp ⟨wire frame ms⟩ (List.replicate n (.error .wouldBlock)) = upToSignal ms := by
  induction n with
  | zero =>
    intro ms _ hn
    cases List.length_eq_zero_iff.1 (Nat.le_zero.1 hn)
    rfl
  | succ n ih =>
    intro ms hframes hn
    rw [List.replicate_succ]
    rcases tryDecode_wire hframes List.prefix_rfl with
      ⟨hnone, hpending⟩ | ⟨m, ms, rest, rfl, hrest, hsome⟩
    · obtain ⟨rfl, -⟩ := hpending.all rfl
      have hpoll : tryRecv rmp ⟨[]⟩ (.error .wouldBlock) = (⟨[]⟩, none) := hnone
      rw [wire_nil, serve_none hpoll]
      exact ih hframes (Nat.zero_le n)
    · rw [wire_cons, List.append_cancel_left_eq] at hrest
      have hpoll : tryRecv rmp ⟨wire frame (m :: ms)⟩ (.error .wouldBlock)
          = (⟨rest⟩, some m) := hsome
      rw [serve_some hpoll, ← hrest,
        ih (List.forall_mem_cons.1 hframes).2 (Nat.le_of_succ_le_succ hn)]
      rfl

/-- However the stream is cut, and wherever there is nothing to read,
all messages are taken in the end. -/
theorem serve_all {n : Nat} (answers : List (Except ReadError (List UInt8))) :
    ∀ {ms : List Message} {buf : List UInt8}, (∀ m ∈ ms, Frames rmp m (frame m)) →
      buf ++ answers.flatMap piece = wire frame ms → ms.length ≤ n →
      serve rmp ⟨buf⟩ (answers ++ List.replicate n (.error .wouldBlock))
        = upToSignal ms := by
  induction answers with
  | nil =>
    intro ms buf hframes h hn
    rw [List.flatMap_nil, List.append_nil] at h
    exact h ▸ serve_polls n hframes hn
  | cons answer answers ih =>
    intro ms buf hframes h hn
    rw [List.flatMap_cons, ← List.append_assoc] at h
    rw [List.cons_append]
    rcases tryRecv_wire hframes (h ▸ List.prefix_append _ _) with
      hnone | ⟨m, ms, rest, rfl, hrest, hsome⟩
    · rw [serve_none hnone]
      exact ih hframes h hn
    · rw [hrest, List.append_assoc, wire_cons, List.append_cancel_left_eq] at h
      rw [serve_some hsome, ih (List.forall_mem_cons.1 hframes).2 h (Nat.le_of_succ_le hn)]
      rfl

/-- In every run of init, svmgr handles what init has sent to it, in
that order and up to the first signal of a shutdown: at any time the
first of these messages, and all of them once their bytes are there and
there was a poll for each. -/
theorem heard_from_init (hrmp : rmp.StructMap) (sock : Init.Fd) {undef : Mem}
    {sigFd : Init.Fd} {a : Init.BootAnswers} {l : Init.EventLoop} {ws : List Init.WaitAnswer}
    {m : Init.Machine} {notes : List Init.Note} (hboot : Init.boot undef sigFd a = some l)
    (hrun : Init.Machine.run ⟨l, 0, none⟩ ws = .ok m) (hnotes : notes <:+: m.loop.log) :
    (∀ answers, answers.flatMap piece <+: notes.flatMap (Init.Note.writes undef sock) →
        serve rmp ⟨[]⟩ answers <+: upToSignal (notes.filterMap (Init.Note.message sock)))
      ∧ ∀ answers n, answers.flatMap piece = notes.flatMap (Init.Note.writes undef sock) →
        notes.length ≤ n → serve rmp ⟨[]⟩ (answers ++ List.replicate n (.error .wouldBlock))
          = upToSignal (notes.filterMap (Init.Note.message sock)) := by
  obtain ⟨past, -, hjustified⟩ := (Init.Machine.boot_justified hboot).run ws hrun
  have hnamed : ∀ n ∈ notes, n.Named :=
    fun n hn => hjustified.loop.named (hnotes.subset hn)
  have hframes : ∀ m ∈ notes.filterMap (Init.Note.message sock),
      Frames rmp m (Init.sentBytes (Init.sent m)) := by
    intro m hm
    obtain ⟨n, hn, hmessage⟩ := List.mem_filterMap.1 hm
    exact Init.Note.frames hrmp (hnamed n hn) hmessage
  rw [Init.writes_wire undef sock hnamed]
  exact ⟨fun answers h => serve_prefix answers hframes h, fun answers n h hn =>
    serve_all answers hframes h (Nat.le_trans (List.length_filterMap_le _ _) hn)⟩

theorem term_heard_from_init : ∃ m, Init.Machine.run ⟨.booted 1000, 0, none⟩
      [.ready [.signalFd [.shutdownTerm]]] = .ok m
    ∧ serve Common.reference ⟨[]⟩ ([.ok (m.loop.log.flatMap (Init.Note.writes (fun _ => 0) 5))]
          ++ List.replicate m.loop.log.length (.error .wouldBlock))
      = upToSignal (m.loop.log.filterMap (Init.Note.message 5)) := by
  obtain ⟨m, hrun⟩ : ∃ m, Init.Machine.run ⟨.booted 1000, 0, none⟩
      [.ready [.signalFd [.shutdownTerm]]] = .ok m := ⟨_, rfl⟩
  have hall := (heard_from_init Common.reference_structMap 5
    (Init.EventLoop.boot_booted 1000) hrun List.infix_rfl).2
  exact ⟨m, hrun, hall [_] _ (List.append_nil _) (Nat.le_refl _)⟩

end Dynamod.Svmgr.InitChannel
