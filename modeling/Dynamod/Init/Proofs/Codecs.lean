/-
The two codecs of the channel between init and svmgr agree.

svmgr encodes with a library, init parses by hand: an encoded message
means its body, and the parser reports it (`parse_message`). init
encodes by hand, svmgr decodes with the library: the pieces a sender
writes are the encoding of a message (`sendHeartbeatAck_eq`,
`sendShutdownSignal_eq`), and the library reads its own encoding back.
-/
import Dynamod.Common.Proofs.Wire
import Dynamod.Init.Proofs.Encode

namespace Dynamod.Init

open Lib MessagePack Msgpack
open Common (Message MessageBody RmpSerde structMap)

-- ==== from svmgr to init

/-- The kind of shutdown in the two languages. -/
def kindOf : Common.ShutdownKind → ShutdownKind
  | .poweroff => .poweroff
  | .reboot => .reboot
  | .halt => .halt

/-- The message that init takes a body for; a text is what its slice
shows. -/
def SameBody (mem : Mem) : MessageBody → InitMessage → Prop
  | .heartbeat, .heartbeat => True
  | .requestShutdown kind, .requestShutdown kind' => kind' = kindOf kind
  | .logToKmsg level message, .logToKmsg level' text =>
    level' = level ∧ text.bytes mem = utf8 message
  | _, _ => False

/-- The bodies that svmgr sends to init. -/
def ToInit : MessageBody → Prop
  | .heartbeat => True
  | .requestShutdown _ => True
  | .logToKmsg _ _ => True
  | _ => False

section Meaning

variable {m : Message}

/-- The entries in front of the body. -/
def beforeBody (m : Message) : List (Datum × Datum) :=
  [(.str (utf8 "id"), .uint m.id.toNat), (.str (utf8 "kind"), m.kind.variant.toDatum)]

/-- Where the body of an encoded message stands. -/
def bodyOffset (m : Message) : Nat :=
  (mapHead 3).length + entryOffset (beforeBody m) (utf8 "body")

theorem entry_body (hfits : Fits m.toDatum) :
    Entry (utf8 "body") (MessagePack.encode m.toDatum) (bodyOffset m)
      m.body.variant.toDatum (MessagePack.encode m.body.variant.toDatum) := by
  refine entry_encode (beforeBody m) [] rfl hfits fun e he => ?_
  simp only [beforeBody, List.mem_cons, List.not_mem_nil, or_false] at he
  obtain rfl | rfl := he
  · exact fun h => absurd (Datum.str.inj h) (by decide)
  · exact fun h => absurd (Datum.str.inj h) (by decide)

theorem fits_body (hfits : Fits m.toDatum) : Fits m.body.variant.toDatum :=
  hfits.2.2.2.1.2

theorem says_heartbeat (hbody : m.body = .heartbeat) (hfits : Fits m.toDatum) :
    Says (MessagePack.encode m.toDatum) .heartbeat := by
  have h := entry_body hfits
  rw [hbody] at h
  exact .heartbeat h (.inl rfl)

theorem says_requestShutdown {kind : Common.ShutdownKind}
    (hbody : m.body = .requestShutdown kind) (hfits : Fits m.toDatum) :
    Says (MessagePack.encode m.toDatum) (.requestShutdown (kindOf kind)) := by
  have h := entry_body hfits
  have hf := fits_body hfits
  rw [hbody] at h hf
  have hkind : kind.variant.toDatum = .str (utf8 (kindOf kind).text) := by
    cases kind <;> rfl
  refine .requestShutdown h (entry_encode [] [] rfl hf ?_)
    (entry_encode [] [] (congrArg (fun d => [(_, d)]) hkind) hf.2.1.2 ?_)
  · exact fun e he => absurd he List.not_mem_nil
  · exact fun e he => absurd he List.not_mem_nil

def logBody (level : Nat) (text : List UInt8) : Datum :=
  .map [(.str (utf8 "LogToKmsg"),
    .map [(.str (utf8 "level"), .uint level), (.str (utf8 "message"), .str text)])]

/-- Where the text of a log request stands, from the start of its
body. -/
def logOffset (level : Nat) (text : List UInt8) : Nat :=
  (mapHead 1).length + entryOffset [] (utf8 "LogToKmsg")
    + ((mapHead 2).length
      + entryOffset [(.str (utf8 "level"), .uint level)] (utf8 "message"))
    + ((MessagePack.encode (.str text)).length - text.length)

/-- A payload whose body is a log request. -/
theorem says_log {bs : List UInt8} {off level : Nat} {text : List UInt8}
    (h : Entry (utf8 "body") bs off (logBody level text)
      (MessagePack.encode (logBody level text))) (hf : Fits (logBody level text)) :
    Says bs (.logToKmsg level text (off + logOffset level text)) := by
  have hmean := Says.logToKmsg h (no_entry_encode hf ?_) (entry_encode [] [] rfl hf ?_)
    (entry_encode [] [(.str (utf8 "message"), .str text)] rfl hf.2.1.2 ?_)
    (entry_encode [(.str (utf8 "level"), .uint level)] [] rfl hf.2.1.2 ?_)
  · rw [logOffset, ← Nat.add_assoc, ← Nat.add_assoc]
    exact hmean
  · intro e he
    rw [List.mem_singleton] at he
    subst he
    exact fun h => absurd (Datum.str.inj h) (by decide)
  · exact fun e he => absurd he List.not_mem_nil
  · exact fun e he => absurd he List.not_mem_nil
  · intro e he
    rw [List.mem_singleton] at he
    subst he
    exact fun h => absurd (Datum.str.inj h) (by decide)

theorem says_logToKmsg {level : UInt8} {message : String}
    (hbody : m.body = .logToKmsg level message) (hfits : Fits m.toDatum) :
    Says (MessagePack.encode m.toDatum) (.logToKmsg level.toNat (utf8 message)
      (bodyOffset m + logOffset level.toNat (utf8 message))) := by
  have h := entry_body hfits
  have hf := fits_body hfits
  rw [hbody] at h hf
  exact says_log h hf

/-- init takes an encoded message for its body. -/
theorem parse_message (hto : ToInit m.body) (hfits : Fits m.toDatum) {mem : Mem}
    {s : Slice} (hs : s.bytes mem = MessagePack.encode m.toDatum) :
    ∃ msg, parseMessage mem s = .ok msg ∧ SameBody mem m.body msg := by
  cases hbody : m.body
  case heartbeat =>
    have hmean := says_heartbeat hbody hfits
    rw [← hs] at hmean
    exact ⟨.heartbeat, parse_meaning hmean, True.intro⟩
  case requestShutdown kind =>
    have hmean := says_requestShutdown hbody hfits
    rw [← hs] at hmean
    exact ⟨.requestShutdown (kindOf kind), parse_meaning hmean, rfl⟩
  case logToKmsg level message =>
    have hmean := says_logToKmsg hbody hfits
    rw [← hs] at hmean
    obtain ⟨-, t, ht, -, htext⟩ | ⟨hbig, -⟩ := parse_meaning hmean
    · rw [UInt8.ofNat_toNat] at ht
      exact ⟨_, ht, rfl, htext⟩
    · have := level.toNat_lt
      omega
  all_goals
    rw [hbody] at hto
    exact hto.elim

end Meaning

-- ==== from init to svmgr

/-- The message a heartbeat is acknowledged with. -/
def heartbeatAck (msgId : UInt64) : Message :=
  { id := msgId, kind := .response msgId, body := .heartbeatAck }

/-- The message a signal is announced with. -/
def shutdownSignal (name : String) : Message :=
  { id := 0, kind := .event, body := .shutdownSignal name }

/-- What a sender sends for a message. -/
def sent (m : Message) : Checked (Option (List UInt8)) :=
  .ok (if 256 < headerSize + (MessagePack.encode m.toDatum).length then none
    else some (frame (MessagePack.encode m.toDatum)))

theorem sendHeartbeatAck_eq (undef : Mem) (msgId : UInt64) :
    sendHeartbeatAck undef msgId = sent (heartbeatAck msgId) := by
  have hsmall : ∀ p ∈ [Piece.mapHeader 3, .string (utf8 "id"), .uint msgId,
      .string (utf8 "kind"), .mapHeader 1, .string (utf8 "Response"),
      .mapHeader 1, .string (utf8 "in_reply_to"), .uint msgId,
      .string (utf8 "body"), .string (utf8 "HeartbeatAck")], p.Small := by
    simp only [List.forall_mem_cons, List.not_mem_nil, Piece.Small,
      IsEmpty.forall_iff, implies_true]
    decide
  rw [sendHeartbeatAck, sendFrame_spec undef hsmall, sent]
  simp only [List.flatMap_cons, List.flatMap_nil, Piece.bytes, heartbeatAck,
    Message.toDatum, Common.MessageKind.variant, MessageBody.variant,
    Common.Variant.toDatum, structMap, List.map_cons, List.map_nil,
    MessagePack.encode, encodeEntries, encodeEntry, List.append_assoc,
    List.append_nil]
  rfl

theorem sendShutdownSignal_eq (undef : Mem) {name : String}
    (hname : (utf8 name).length < 2 ^ 16) :
    sendShutdownSignal undef (utf8 name) = sent (shutdownSignal name) := by
  have hsmall : ∀ p ∈ [Piece.mapHeader 3, .string (utf8 "id"), .uint 0,
      .string (utf8 "kind"), .string (utf8 "Event"), .string (utf8 "body"),
      .mapHeader 1, .string (utf8 "ShutdownSignal"), .mapHeader 1,
      .string (utf8 "signal"), .string (utf8 name)], p.Small := by
    simp only [List.forall_mem_cons, List.not_mem_nil, Piece.Small, hname,
      IsEmpty.forall_iff, implies_true]
    decide
  rw [sendShutdownSignal, sendFrame_spec undef hsmall, sent]
  simp only [List.flatMap_cons, List.flatMap_nil, Piece.bytes, shutdownSignal,
    Message.toDatum, Common.MessageKind.variant, MessageBody.variant,
    Common.Variant.toDatum, Common.text, structMap, List.map_cons, List.map_nil,
    MessagePack.encode, encodeEntries, encodeEntry, List.append_assoc,
    List.append_nil]
  rfl

/-- The acknowledgement always fits the array. -/
theorem heartbeatAck_fits (msgId : UInt64) :
    headerSize + (MessagePack.encode (heartbeatAck msgId).toDatum).length ≤ 256 := by
  have hid := encodeUint_length_le msgId.toNat
  have hsizes : (MessagePack.encode (.str (utf8 "id"))).length = 3
      ∧ (MessagePack.encode (.str (utf8 "kind"))).length = 5
      ∧ (MessagePack.encode (.str (utf8 "Response"))).length = 9
      ∧ (MessagePack.encode (.str (utf8 "in_reply_to"))).length = 12
      ∧ (MessagePack.encode (.str (utf8 "body"))).length = 5
      ∧ (MessagePack.encode (.str (utf8 "HeartbeatAck"))).length = 13 := by
    refine ⟨rfl, rfl, rfl, rfl, rfl, rfl⟩
  have hheads : (mapHead 3).length = 1 ∧ (mapHead 1).length = 1 := ⟨rfl, rfl⟩
  have hhead : headerSize = 6 := rfl
  simp only [heartbeatAck, Message.toDatum, Common.MessageKind.variant,
    MessageBody.variant, Common.Variant.toDatum, structMap, List.map_cons,
    List.map_nil, encode_map, encode_uint, encodeEntries, encodeEntry,
    List.length_append, List.length_cons, List.length_nil, Nat.reduceAdd]
  omega

/-- A name for which the frame fits is short. -/
theorem length_of_fits {name : String}
    (h : headerSize + (MessagePack.encode (shutdownSignal name).toDatum).length ≤ 256) :
    (utf8 name).length < 2 ^ 16 := by
  simp only [shutdownSignal, Message.toDatum, Common.MessageKind.variant,
    MessageBody.variant, Common.Variant.toDatum, Common.text, structMap,
    List.map_cons, List.map_nil, encode_map, encode_str, encodeEntries, encodeEntry,
    List.length_append, List.length_cons, List.length_nil] at h
  omega

/-- A frame that was sent is decoded to its message. -/
theorem decode_sent {E D : Type} {rmp : RmpSerde E D} (h : rmp.StructMap) {m : Message}
    (hfits : headerSize + (MessagePack.encode m.toDatum).length ≤ 256) :
    ∃ bytes, sent m = .ok (some bytes)
      ∧ Common.decode rmp bytes = .ok (m, bytes.length) := by
  have hhead : headerSize = 6 := rfl
  have hmax : Common.maxMessageSize = 65536 := rfl
  refine ⟨frame (MessagePack.encode m.toDatum), ?_, ?_⟩
  · rw [sent, if_neg (Nat.not_lt.2 hfits)]
  · have hlen : (MessagePack.encode m.toDatum).length ≤ Common.maxMessageSize := by omega
    have hdecode := Common.decode_payload hlen (h.fromSlice_eq m hlen) []
    rw [List.append_nil] at hdecode
    rw [length_frame]
    exact hdecode

/-- The codecs of the two languages agree in both directions. -/
theorem codecs_agree {E D : Type} (rmp : RmpSerde E D) (h : rmp.StructMap) :
    (∀ (m : Message) (bytes : List UInt8), ToInit m.body → Common.encode rmp m = .ok bytes →
        ∀ (mem : Mem) (s : Slice), s.bytes mem = bytes.drop headerSize →
          ∃ msg, parseMessage mem s = .ok msg ∧ SameBody mem m.body msg)
      ∧ (∀ (undef : Mem) (msgId : UInt64), ∃ bytes, sendHeartbeatAck undef msgId = .ok (some bytes)
          ∧ Common.decode rmp bytes = .ok (heartbeatAck msgId, bytes.length))
      ∧ ∀ (undef : Mem) (name : String),
        headerSize + (MessagePack.encode (shutdownSignal name).toDatum).length ≤ 256 →
        ∃ bytes, sendShutdownSignal undef (utf8 name) = .ok (some bytes)
          ∧ Common.decode rmp bytes = .ok (shutdownSignal name, bytes.length) := by
  refine ⟨?_, ?_, ?_⟩
  · intro m bytes hto hencode mem s hs
    unfold Common.encode at hencode
    cases hvec : rmp.toVec m with
    | error e =>
      rw [hvec] at hencode
      cases hencode
    | ok payload =>
      rw [hvec] at hencode
      dsimp only at hencode
      split at hencode
      · cases hencode
      · next hsmall =>
        have hpayload := h.toVec_eq m payload hvec
        injection hencode with hencode
        have hdrop : bytes.drop headerSize = payload := by
          rw [← hencode]
          show (toLE 4 payload.length ++ payload).drop 4 = payload
          rw [List.drop_append_of_le_length (by simp),
            List.drop_of_length_le (by simp), List.nil_append]
        refine parse_message hto (Message.fits ?_) (hs.trans (hdrop.trans hpayload))
        rw [← hpayload]
        exact Nat.not_lt.1 hsmall
  · intro undef msgId
    rw [sendHeartbeatAck_eq]
    exact decode_sent h (heartbeatAck_fits msgId)
  · intro undef name hfits
    rw [sendShutdownSignal_eq undef (length_of_fits hfits)]
    exact decode_sent h hfits

/-- A log request of svmgr. -/
def logUp : Message :=
  { id := 300, kind := .event, body := .logToKmsg 6 "up" }

theorem reference_codecs_agree : Common.reference.StructMap
    ∧ (∃ msg, parseMessage (store (fun _ => 0) 0 (MessagePack.encode logUp.toDatum))
        ⟨0, (MessagePack.encode logUp.toDatum).length, by decide⟩ = .ok msg
      ∧ SameBody (store (fun _ => 0) 0 (MessagePack.encode logUp.toDatum))
        (.logToKmsg 6 "up") msg)
    ∧ (∃ bytes, sendHeartbeatAck (fun _ => 0) 70000 = .ok (some bytes)
      ∧ Common.decode Common.reference bytes
        = .ok (heartbeatAck 70000, bytes.length))
    ∧ ∃ bytes, sendShutdownSignal (fun _ => 0) (utf8 "SIGTERM") = .ok (some bytes)
      ∧ Common.decode Common.reference bytes
        = .ok (shutdownSignal "SIGTERM", bytes.length) := by
  obtain ⟨hparse, hack, hsignal⟩ :=
    codecs_agree Common.reference Common.reference_structMap
  refine ⟨Common.reference_structMap, ?_, hack _ 70000, hsignal _ "SIGTERM" (by decide)⟩
  exact hparse logUp (frame (MessagePack.encode logUp.toDatum)) True.intro rfl _ _
    (Slice.bytes_store (s := ⟨0, (MessagePack.encode logUp.toDatum).length, by decide⟩) _ rfl)

end Dynamod.Init
