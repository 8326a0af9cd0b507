/-
What the ends of the control socket make of one frame.

The service manager and dynamodctl receive in a loop, and get the
message however the frame is cut into reads (`received_however_cut`).
The bridge and logind read once: they get it exactly if the first read
brings the whole frame and the frame fits into their buffer
(`single_read_iff`).
-/
import Dynamod.Client.Requests
import Dynamod.Svmgr.Proofs.Control

namespace Dynamod.Client

open Lib Common Svmgr

variable {E D I : Type} {rmp : RmpSerde E D} {m : Message} {b : List UInt8}

-- ==== in a loop

section Loop

variable {pieces : List (List UInt8)} (later : Incoming I)
  (hframe : Frames rmp m b) (hpieces : pieces.flatten = b)
  (hne : ∀ p ∈ pieces, p ≠ [])
include hframe hpieces hne

theorem receiveResponse_pieces : receiveResponse rmp (pieces.map .ok ++ later) = .ok m.body := by
  unfold receiveResponse
  rw [receiveFrame_pieces hframe hpieces hne]
  dsimp only
  rw [hframe.decode_eq]

end Loop

/-- A frame that `encode` wrote is read back whatever follows it, no
strict prefix of it is taken for a message, and both receive loops get
the message however the frame is cut into reads. -/
theorem received_however_cut (hround : rmp.ReadsBack m) (h : encode rmp m = .ok b) :
    (∀ rest, decode rmp (b ++ rest) = .ok (m, b.length))
      ∧ (∀ buf, buf <+: b → buf ≠ b → decode rmp buf = .error .incomplete)
      ∧ ∀ (pieces : List (List UInt8)) (later : Incoming I),
        pieces.flatten = b → (∀ p ∈ pieces, p ≠ []) →
          receiveFrame rmp [] (pieces.map .ok ++ later) = .ok b
            ∧ receiveRequest rmp (pieces.map .ok ++ later) = .ok (some m)
            ∧ receiveResponse rmp (pieces.map .ok ++ later) = .ok m.body := by
  have hframe := encode_frames hround h
  refine ⟨hframe.decode_append, fun buf hbuf hne => ?_, fun pieces later hpieces hne => ?_⟩
  · refine hframe.decode_prefix hbuf (Nat.lt_of_le_of_ne hbuf.length_le fun hlen => ?_)
    exact hne (hbuf.eq_of_length hlen)
  · exact ⟨receiveFrame_pieces hframe hpieces hne later,
      receiveRequest_pieces later hframe hpieces hne,
      receiveResponse_pieces later hframe hpieces hne⟩

-- ==== in a single read

/-- What one read of less than the frame, or of the frame, comes to. -/
private theorem readResponse_front {front : List UInt8} {incoming : Incoming I}
    (hframe : Frames rmp m b) (hread : (read responseSize incoming).1 = .ok front)
    (hne : front ≠ []) (hfront : front <+: b) : readResponse rmp incoming
      = if front = b then .ok m.body
        else (.error (.decode .incomplete) : Except (ClientError E D I) _) := by
  have hpos : ¬ front.length = 0 := fun h => hne (List.eq_nil_of_length_eq_zero h)
  unfold readResponse
  rw [hread]
  dsimp only
  rw [if_neg hpos]
  by_cases hwhole : front = b
  · rw [if_pos hwhole, hwhole, hframe.decode_eq]
  · have hlt : front.length < b.length :=
      Nat.lt_of_le_of_ne hfront.length_le fun h => hwhole (hfront.eq_of_length h)
    rw [if_neg hwhole, hframe.decode_prefix hfront hlt]

/-- The first read brings the whole frame, or the message is lost. -/
theorem readResponse_pieces (hframe : Frames rmp m b)
    {pieces : List (List UInt8)} (hpieces : pieces.flatten = b)
    (hne : ∀ p ∈ pieces, p ≠ []) (later : Incoming I) : readResponse rmp (pieces.map .ok ++ later)
      = if pieces = [b] ∧ b.length ≤ responseSize then .ok m.body
        else (.error (.decode .incomplete) : Except (ClientError E D I) _) := by
  cases pieces with
  | nil =>
    have hpos := hframe.length_pos
    rw [← hpieces] at hpos
    exact absurd hpos (Nat.lt_irrefl 0)
  | cons p ps =>
    have hb : p ++ ps.flatten = b := hpieces
    have hp := hne p List.mem_cons_self
    by_cases hfits : p.length ≤ responseSize
    · have hread : (read responseSize ((p :: ps).map .ok ++ later)).1
          = (.ok p : Except I _) := by
        rw [List.map_cons, List.cons_append, read_piece _ hfits]
      rw [readResponse_front hframe hread hp ⟨_, hb⟩]
      -- the first piece is the frame exactly if there is no second one
      refine if_congr ?_ rfl rfl
      constructor
      · intro hpb
        have hrest : ps.flatten = [] := by
          rw [← hpb] at hb
          exact List.append_cancel_left (hb.trans (List.append_nil p).symm)
        have hps : ps = [] := by
          refine List.eq_nil_iff_forall_not_mem.2 fun q hq => ?_
          exact hne q (List.mem_cons_of_mem _ hq)
            (List.flatten_eq_nil_iff.1 hrest q hq)
        rw [hps, hpb]
        exact ⟨rfl, hpb ▸ hfits⟩
      · rintro ⟨h, -⟩
        injection h
    · have hread : (read responseSize ((p :: ps).map .ok ++ later)).1
          = (.ok (p.take responseSize) : Except I _) := by
        rw [List.map_cons, List.cons_append, Common.read, if_neg hfits]
      have hshort : (p.take responseSize).length < p.length := by
        rw [List.length_take]
        omega
      have hle : p.length ≤ b.length := List.IsPrefix.length_le ⟨_, hb⟩
      rw [readResponse_front hframe hread, if_neg, if_neg]
      · rintro ⟨h, hsize⟩
        injection h with h
        exact hfits (h ▸ hsize)
      · intro h
        rw [h] at hshort
        omega
      · refine List.ne_nil_of_length_pos ?_
        rw [List.length_take]
        exact Nat.lt_min.2 ⟨by decide, List.length_pos_of_ne_nil hp⟩
      · exact (List.take_prefix _ _).trans ⟨_, hb⟩

section Sent

variable {body : MessageBody} {data : List UInt8}

/-- A request that can be encoded is sent. -/
private theorem sendMessage_ok {incoming : Incoming I} {msg : Message}
    (h : encode rmp msg = .ok data) : sendMessage rmp
    { incoming := incoming } msg = .ok data := by
  unfold sendMessage
  rw [h]

theorem sendRequest_eq (incoming : Incoming I)
    (hsent : encode rmp { id := 1, kind := .request, body := body } = .ok data) :
    sendRequest rmp { incoming := incoming } body
      = receiveResponse rmp incoming := by
  unfold sendRequest
  rw [sendMessage_ok hsent]

theorem exchange_eq (incoming : Incoming I) {id : UInt64}
    (hsent : encode rmp { id := id, kind := .request, body := body } = .ok data) :
    exchange rmp { incoming := incoming }
        { id := id, kind := .request, body := body }
      = readResponse rmp incoming := by
  unfold exchange
  rw [sendMessage_ok hsent]

end Sent

private theorem ite_eq_ok_iff {A B : Type} {p : Prop} [Decidable p] {a : A} {e : B} :
    (if p then .ok a else .error e : Except B A) = .ok a ↔ p := by
  split
  · next h => exact iff_of_true rfl h
  · next h => exact iff_of_false (fun h => nomatch h) h

/-- On the frame of a response, cut into reads in any way, dynamodctl
gets the body. The bridge and logind get what dynamodctl gets exactly
if the first read brings the whole frame and the frame is at most as
large as their buffer. -/
theorem single_read_iff (body : MessageBody) (client : SvmgrClient)
    (pieces : List (List UInt8)) (later : Incoming I)
    (hround : rmp.ReadsBack m) (h : encode rmp m = .ok b)
    {data data' : List UInt8}
    (hsent : encode rmp { id := 1, kind := .request, body := body } = .ok data)
    (hsent' : encode rmp { id := client.nextId, kind := .request, body := body }
      = .ok data')
    (hpieces : pieces.flatten = b) (hne : ∀ p ∈ pieces, p ≠ []) :
    sendRequest rmp { incoming := pieces.map .ok ++ later } body = .ok m.body
      ∧ ((client.sendCommand rmp { incoming := pieces.map .ok ++ later } body).1
          = sendRequest rmp { incoming := pieces.map .ok ++ later } body
        ↔ pieces = [b] ∧ b.length ≤ responseSize)
      ∧ (logindResponse rmp { incoming := pieces.map .ok ++ later } body
          = sendRequest rmp { incoming := pieces.map .ok ++ later } body
        ↔ pieces = [b] ∧ b.length ≤ responseSize) := by
  have hframe := encode_frames hround h
  have hctl : sendRequest rmp { incoming := pieces.map .ok ++ later } body
      = .ok m.body := by
    rw [sendRequest_eq _ hsent, receiveResponse_pieces later hframe hpieces hne]
  have honce := readResponse_pieces hframe hpieces hne later
  refine ⟨hctl, ?_, ?_⟩
  · unfold SvmgrClient.sendCommand
    rw [hctl, exchange_eq _ hsent', honce]
    exact ite_eq_ok_iff
  · unfold logindResponse
    rw [hctl, exchange_eq _ hsent, honce]
    exact ite_eq_ok_iff

-- ==== an acknowledgement

/-- The acknowledgement of the request with id 1. -/
def acknowledgement : Message := response 1 .ack

private theorem length_acknowledgement :
    (MessagePack.encode acknowledgement.toDatum).length ≤ maxMessageSize := by
  decide

def acknowledgementFrame : List UInt8 :=
  frame (MessagePack.encode acknowledgement.toDatum)

theorem acknowledgement_received : encode reference acknowledgement = .ok acknowledgementFrame
    ∧ receiveRequest (I := Unit) reference
        ([acknowledgementFrame.take 1, acknowledgementFrame.drop 1].map .ok ++ [])
      = .ok (some acknowledgement) := by
  have henc := encode_reference length_acknowledgement
  have hcut := (received_however_cut (I := Unit)
    (reference_readsBack length_acknowledgement) henc).2.2
      [acknowledgementFrame.take 1, acknowledgementFrame.drop 1] []
      (by decide) (by decide)
  exact ⟨henc, hcut.2.1⟩

/-- The request that is acknowledged. -/
private def reloadRequest : Message := { id := 1, kind := .request, body := .reload }

private theorem reload_sent : encode reference reloadRequest
    = .ok (frame (MessagePack.encode reloadRequest.toDatum)) :=
  encode_reference (by decide)

/-- The service manager acknowledges a reload. If the acknowledgement
arrives in two reads, dynamodctl gets it, and the bridge and logind
take its first byte for all of it. -/
theorem acknowledgement_lost :
    (∀ (t : SupervisorTree) (workers : IterOrder t.allWorkers) (fuel : Nat),
        (handleRequest t workers fuel .reload).map (fun a => response 1 a.1)
          = some acknowledgement)
      ∧ encode reference acknowledgement = .ok acknowledgementFrame
      ∧ sendRequest (I := Unit) reference
          { incoming := [acknowledgementFrame.take 1,
              acknowledgementFrame.drop 1].map .ok } .reload
        = .ok .ack
      ∧ (SvmgrClient.sendCommand (I := Unit) reference {}
          { incoming := [acknowledgementFrame.take 1,
              acknowledgementFrame.drop 1].map .ok } .reload).1
        = .error (.decode .incomplete)
      ∧ logindSendCommand (I := Unit) reference
          { incoming := [acknowledgementFrame.take 1,
              acknowledgementFrame.drop 1].map .ok } .reload
        = .error (.client (.decode .incomplete)) := by
  have henc := encode_reference length_acknowledgement
  have hframe := encode_frames (reference_readsBack length_acknowledgement) henc
  have hparts : [acknowledgementFrame.take 1, acknowledgementFrame.drop 1].flatten
      = acknowledgementFrame := by
    decide
  have hne : ∀ p ∈ [acknowledgementFrame.take 1, acknowledgementFrame.drop 1],
      p ≠ [] := by
    decide
  have hloop := receiveResponse_pieces (I := Unit) [] hframe hparts hne
  have honce := readResponse_pieces (I := Unit) hframe hparts hne []
  rw [if_neg (by decide), List.append_nil] at honce
  rw [List.append_nil] at hloop
  refine ⟨fun _ _ _ => rfl, henc, ?_, ?_, ?_⟩
  · rw [sendRequest_eq _ reload_sent, hloop]
    rfl
  · unfold SvmgrClient.sendCommand
    rw [exchange_eq _ reload_sent, honce]
  · unfold logindSendCommand logindResponse
    rw [exchange_eq _ reload_sent, honce]

/-- In one read, all three get it. -/
theorem acknowledgement_in_one_read : (SvmgrClient.sendCommand (I := Unit) reference {}
      { incoming := [acknowledgementFrame].map .ok ++ [] } .reload).1 = .ok .ack
    ∧ logindResponse (I := Unit) reference
      { incoming := [acknowledgementFrame].map .ok ++ [] } .reload = .ok .ack := by
  obtain ⟨hctl, hbridge, hlogind⟩ := single_read_iff (I := Unit) .reload {}
    [acknowledgementFrame] [] (reference_readsBack length_acknowledgement)
    (encode_reference length_acknowledgement) reload_sent reload_sent
    (by decide) (by decide)
  exact ⟨(hbridge.2 ⟨rfl, by decide⟩).trans hctl, (hlogind.2 ⟨rfl, by decide⟩).trans hctl⟩

end Dynamod.Client
