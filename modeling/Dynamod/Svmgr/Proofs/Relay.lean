/-
What the log relay forwards of a service's output.

# What arrives

The relay sends the lines before the first one that is not UTF-8, without
the empty ones, and of these arrive the ones whose `send_to` succeeds
(`relayLogs_eq`). At the unreadable line it returns: the line and all
behind it are lost, however long the service runs on.

# The contract

`Forwarded` asks for one datagram for each line that is not empty, so the
proof counts. What arrives is no longer than what is sent, and that no
longer than what was written; where the two ends are of one length,
nothing was lost on the way.
-/
import Mathlib.Data.List.Forall2
import Mathlib.Data.List.TakeWhile
import Dynamod.Svmgr.Channels

namespace Dynamod.Svmgr

open Lib

variable (sock : Bool) (sendTo : Nat → Bool) (name : String) (stream : List UInt8)

-- ==== the contract

/-- The lines of a stream that are not empty. -/
def written : List (List UInt8) :=
  (lines 0x0a 0x0d stream).filter fun line => line ≠ []

/-- The datagram of a line: the service's name, a tab and the bytes. -/
def datagram (text : List UInt8) : List UInt8 := utf8 name ++ 0x09 :: text

/-- A datagram shows a line: with its own bytes, or, where they are not
UTF-8, with any bytes in their place. -/
def Shows (line sent : List UInt8) : Prop :=
  ∃ text, sent = datagram name text ∧ ((fromUtf8 line).isSome → text = line)

/-- Every line that is not empty arrives, in order and once. -/
def Forwarded (arrived : List (List UInt8)) : Prop :=
  List.Forall₂ (Shows name) (written stream) arrived

-- ==== the loop

/-- The text that is built for a line, as bytes. -/
theorem utf8_message (line : String) :
    utf8 (name ++ "\t" ++ line) = datagram name (utf8 line) := by
  rw [utf8_append, utf8_append, List.append_assoc]
  rfl

/-- A text without bytes is the empty one. -/
theorem utf8_eq_nil {line : String} : utf8 line = [] ↔ line.isEmpty = true := by
  rw [String.isEmpty_iff]
  constructor
  · intro h
    exact utf8_injective h
  · rintro rfl
    rfl

/-- What arrives of a row of datagrams, from the `n`-th call on. -/
def delivered (n : Nat) (sent : List (List UInt8)) : List (List UInt8) :=
  ((sent.zipIdx n).filter fun p => sendTo p.2).map Prod.fst

theorem delivered_cons (n : Nat) (msg : List UInt8) (sent : List (List UInt8)) :
    delivered sendTo n (msg :: sent)
      = if sendTo n then msg :: delivered sendTo (n + 1) sent
        else delivered sendTo (n + 1) sent := by
  unfold delivered
  rw [List.zipIdx_cons, List.filter_cons]
  split
  · rfl
  · rfl

/-- No more datagrams arrive than are sent. -/
theorem length_delivered_le (n : Nat) (sent : List (List UInt8)) :
    (delivered sendTo n sent).length ≤ sent.length := by
  rw [delivered, List.length_map]
  exact List.length_filter_le _ _ |>.trans_eq List.length_zipIdx

/-- All of them arrive exactly if every call succeeds. -/
theorem delivered_all_iff (sent : List (List UInt8)) :
    (delivered sendTo 0 sent).length = sent.length ↔ ∀ n < sent.length, sendTo n = true := by
  have hlen : (sent.zipIdx 0).length = sent.length := List.length_zipIdx
  rw [delivered, List.length_map, ← hlen, List.length_filter_eq_length_iff]
  constructor
  · intro h n hn
    rw [hlen] at hn
    exact h (sent[n], n) (List.mk_mem_zipIdx_iff_getElem?.2 (List.getElem?_eq_getElem hn))
  · rintro h ⟨msg, n⟩ hmem
    rw [hlen] at h
    exact h n (List.getElem?_eq_some_iff.1 (List.mk_mem_zipIdx_iff_getElem?.1 hmem)).1

/-- Where every call succeeds, what arrives is what is sent. -/
theorem delivered_eq_self {sent : List (List UInt8)}
    (h : ∀ n < sent.length, sendTo n = true) : delivered sendTo 0 sent = sent := by
  have hsub : (delivered sendTo 0 sent).Sublist sent := by
    have hmap := (List.filter_sublist (p := fun p => sendTo p.2) (l := sent.zipIdx)).map Prod.fst
    rwa [List.zipIdx_map_fst] at hmap
  exact hsub.eq_of_length ((delivered_all_iff sendTo sent).2 h)

/-- What arrives of a row of lines: of the readable ones at its front,
without the empty ones. -/
theorem relayLoop_eq (ls : List (List UInt8)) (n : Nat) :
    relayLoop true sendTo name n (ls.map fromUtf8)
      = delivered sendTo n (((ls.takeWhile fun line => (fromUtf8 line).isSome).filter
          fun line => line ≠ []).map (datagram name)) := by
  induction ls generalizing n with
  | nil => rfl
  | cons line ls ih =>
    rw [List.map_cons, List.takeWhile_cons]
    cases hline : fromUtf8 line with
    | none => rfl
    | some text =>
      obtain rfl := fromUtf8_eq_some.1 hline
      unfold relayLoop
      by_cases hempty : text.isEmpty
      · rw [if_pos hempty, ih, utf8_eq_nil.2 hempty]
        rfl
      · have hne : utf8 text ≠ [] := fun h => hempty (utf8_eq_nil.1 h)
        rw [if_neg hempty, if_pos rfl, ih, utf8_message]
        simp [hne, delivered_cons]

/-- Without a socket nothing is sent. -/
theorem relayLoop_unsent (ls : List (Option String)) (n : Nat) :
    relayLoop false sendTo name n ls = [] := by
  induction ls with
  | nil => rfl
  | cons line ls ih =>
    cases line with
    | none => rfl
    | some text =>
      unfold relayLoop
      split
      · exact ih
      · exact ih

-- ==== the relay

/-- The lines that are sent: those before the first unreadable one. -/
def relayed : List (List UInt8) :=
  ((lines 0x0a 0x0d stream).takeWhile fun line => (fromUtf8 line).isSome).filter
    fun line => line ≠ []

theorem relayLogs_eq : relayLogs true sendTo name stream
    = delivered sendTo 0 ((relayed stream).map (datagram name)) :=
  relayLoop_eq sendTo name _ 0

theorem relayed_sublist : (relayed stream).Sublist (written stream) :=
  (List.takeWhile_sublist _).filter _

theorem readable_of_relayed {line : List UInt8} (h : line ∈ relayed stream) :
    (fromUtf8 line).isSome = true := by
  have hmem := (List.mem_filter.1 h).1
  exact List.mem_takeWhile_imp (p := fun line => (fromUtf8 line).isSome) hmem

/-- Without unreadable lines all that was written is sent. -/
theorem relayed_eq_written (h : ∀ line ∈ written stream, (fromUtf8 line).isSome = true) :
    relayed stream = written stream := by
  unfold relayed written
  rw [List.takeWhile_eq_self_iff.2]
  intro line hline
  by_cases hne : line = []
  · rw [hne]
    rfl
  · exact h line (List.mem_filter.2 ⟨hline, decide_eq_true hne⟩)

/-- The datagrams of all lines meet the contract. -/
theorem forwarded_map : Forwarded name stream ((written stream).map (datagram name)) := by
  unfold Forwarded
  rw [List.forall₂_map_right_iff, List.forall₂_same]
  exact fun line _ => ⟨line, rfl, fun _ => rfl⟩

/-- The relay forwards a stream exactly if it has a socket, every line
that is not empty is UTF-8 and the call for each of them succeeds; a
stream without such lines needs nothing. -/
theorem relayLogs_forwarded_iff : Forwarded name stream (relayLogs sock sendTo name stream)
    ↔ (∀ line ∈ written stream, sock = true ∧ (fromUtf8 line).isSome = true)
      ∧ ∀ n < (written stream).length, sendTo n = true := by
  cases sock with
  | false =>
    rw [relayLogs, relayLoop_unsent]
    refine ⟨fun h => ?_, fun h => ?_⟩
    · rw [List.eq_nil_of_length_eq_zero h.length_eq]
      exact ⟨nofun, nofun⟩
    · have hnone : written stream = [] :=
        List.eq_nil_iff_forall_not_mem.2 fun line hline => by cases (h.1 line hline).1
      rw [Forwarded, hnone]
      exact .nil
  | true =>
    rw [relayLogs_eq]
    refine ⟨fun h => ?_, fun ⟨hread, hsent⟩ => ?_⟩
    · -- as many lines arrive as there are, so none is lost on the way
      have hlen := h.length_eq
      have harrived := length_delivered_le sendTo 0 ((relayed stream).map (datagram name))
      have hsent := (relayed_sublist stream).length_le
      rw [List.length_map] at harrived
      have hall := (relayed_sublist stream).eq_of_length (by omega)
      refine ⟨fun line hline => ⟨rfl, readable_of_relayed stream (hall ▸ hline)⟩, ?_⟩
      have hcalls := delivered_all_iff sendTo ((relayed stream).map (datagram name))
      rw [List.length_map, hall] at hcalls
      exact hcalls.1 (hall ▸ hlen.symm)
    · rw [relayed_eq_written stream fun line hline => (hread line hline).2, delivered_eq_self]
      · exact forwarded_map name stream
      · rwa [List.length_map]

/-- A service that writes ASCII, empty lines and a last line without an
end. -/
theorem ascii_output_forwarded : Forwarded "web" (utf8 "up\n\r\nok")
    (relayLogs true (fun _ => true) "web" (utf8 "up\n\r\nok")) :=
  (relayLogs_forwarded_iff true (fun _ => true) "web" (utf8 "up\n\r\nok")).2
    ⟨by decide, fun _ _ => rfl⟩

/-- A byte that is not UTF-8 ends the relay: the line behind it is a plain
one, and nothing arrives although no call fails. -/
theorem output_lost_behind_byte : written (0xff :: utf8 "\nok\n") = [[0xff], utf8 "ok"]
    ∧ relayLogs true (fun _ => true) "web" (0xff :: utf8 "\nok\n") = []
    ∧ ¬ Forwarded "web" (0xff :: utf8 "\nok\n")
        (relayLogs true (fun _ => true) "web" (0xff :: utf8 "\nok\n")) := by
  have hwritten : written (0xff :: utf8 "\nok\n") = [[0xff], utf8 "ok"] := by decide
  have hsent : relayLogs true (fun _ => true) "web" (0xff :: utf8 "\nok\n") = [] := by decide
  refine ⟨hwritten, hsent, ?_⟩
  rw [Forwarded, hwritten, hsent]
  intro h
  cases h

end Dynamod.Svmgr
