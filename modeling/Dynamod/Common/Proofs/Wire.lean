/-
The wire format determines the message.

`Message.toDatum_injective` and the prefix code of MessagePack give
`encode_injective`, so a library as `RmpSerde.StructMap` asks for
exists (`reference_structMap`). `decode_frame` is what `decode` makes
of a frame, whatever follows it.
-/
import Dynamod.Common.Protocol

namespace Dynamod.Common

open Lib MessagePack

variable {A : Type} {f : A → Datum} {m : Message}

-- ==== the tree

/-- A map of fields determines them. -/
theorem structMap_injective {fs gs : List (String × Datum)}
    (h : structMap fs = structMap gs) : fs = gs := by
  injection h with h
  induction fs generalizing gs with
  | nil =>
    cases gs with
    | nil => rfl
    | cons g gs => cases h
  | cons f fs ih =>
    cases gs with
    | nil => cases h
    | cons g gs =>
      rw [List.map_cons, List.map_cons] at h
      injection h with hf h
      injection hf with hkey hval
      injection hkey with hkey
      rw [ih h, Prod.ext (utf8_injective hkey) hval]

theorem Variant.toDatum_injective {v w : Variant} (h : v.toDatum = w.toDatum) : v = w := by
  cases v with
  | unit name =>
    cases w with
    | unit name' =>
      injection h with h
      rw [utf8_injective h]
    | struct name' gs => cases h
  | struct name fs =>
    cases w with
    | unit name' => cases h
    | struct name' gs =>
      injection h with h
      injection h with h
      injection h with hname hfields
      injection hname with hname
      rw [utf8_injective hname, structMap_injective hfields]

theorem text_injective {s t : String} (h : text s = text t) : s = t := by
  injection h with h
  exact utf8_injective h

/-- Integers are told apart by their sign and their value. -/
theorem signedDatum_injective {i j : Int32} (h : signedDatum i = signedDatum j) : i = j := by
  unfold signedDatum at h
  apply Int32.toInt_inj.1
  split at h
  · next hi =>
    split at h
    · next hj =>
      injection h with h
      omega
    · cases h
  · split at h
    · cases h
    · injection h

theorem signedDatum_ne_nil (i : Int32) : signedDatum i ≠ .nil := by
  unfold signedDatum
  split
  · exact Datum.noConfusion
  · exact Datum.noConfusion

/-- An option is `nil` or its value, which is never `nil`. -/
theorem optional_injective (hf : ∀ {a b}, f a = f b → a = b) (hnil : ∀ a, f a ≠ .nil)
    {x y : Option A} (h : optional f x = optional f y) : x = y := by
  cases x with
  | none =>
    cases y with
    | none => rfl
    | some b => exact absurd h.symm (hnil b)
  | some a =>
    cases y with
    | none => exact absurd h (hnil a)
    | some b => rw [hf h]

theorem ServiceEntry.toDatum_injective {e e' : ServiceEntry}
    (h : e.toDatum = e'.toDatum) : e = e' := by
  have h := structMap_injective h
  simp only [List.cons.injEq, Prod.mk.injEq, true_and, and_true] at h
  obtain ⟨hname, hstatus, hpid⟩ := h
  cases e
  cases e'
  rw [mk.injEq]
  exact ⟨text_injective hname, text_injective hstatus,
    optional_injective signedDatum_injective signedDatum_ne_nil hpid⟩

theorem MessageKind.variant_injective {k k' : MessageKind}
    (h : k.variant = k'.variant) : k = k' := by
  cases k <;> cases k' <;>
    simp_all [MessageKind.variant, UInt64.toNat_inj]

theorem ShutdownKind.variant_injective {k k' : ShutdownKind}
    (h : k.variant = k'.variant) : k = k' := by
  cases k <;> cases k' <;> simp_all [ShutdownKind.variant]

def Variant.name : Variant → String
  | .unit name => name
  | .struct name _ => name

def Variant.fields : Variant → List Datum
  | .unit _ => []
  | .struct _ fields => fields.map Prod.snd

/-- The names of the bodies, in the order of the source. -/
private def bodyNames : List String :=
  ["RequestShutdown", "Heartbeat", "HeartbeatAck", "ShutdownSignal", "LogToKmsg",
    "StartService", "StopService", "RestartService", "ServiceStatus",
    "ListServices", "TreeStatus", "Reload", "Shutdown", "GetServiceByPid", "Ack",
    "Error", "ServiceInfo", "ServiceList", "Tree", "ServiceByPid"]

/-- A name is in the list of names at the place of its constructor. -/
private theorem idxOf_name (b : MessageBody) : bodyNames.idxOf b.variant.name = b.ctorIdx := by
  cases b <;> rfl

/-- The name tells the constructor, the fields its arguments. -/
theorem MessageBody.variant_injective {b b' : MessageBody}
    (h : b.variant = b'.variant) : b = b' := by
  have hidx : b.ctorIdx = b'.ctorIdx := by rw [← idxOf_name b, ← idxOf_name b', h]
  have hfields := congrArg Variant.fields h
  -- only the pairs of one variant are left
  cases b <;> cases b' <;> cases hidx
  all_goals
    simp only [variant, Variant.fields, List.map_cons, List.map_nil, List.cons.injEq,
      Datum.uint.injEq, Datum.array.injEq, and_true] at hfields
  case requestShutdown.requestShutdown.refl =>
    rw [ShutdownKind.variant_injective (Variant.toDatum_injective hfields)]
  case shutdown.shutdown.refl =>
    rw [ShutdownKind.variant_injective (Variant.toDatum_injective hfields)]
  case logToKmsg.logToKmsg.refl =>
    rw [UInt8.toNat_inj.1 hfields.1, text_injective hfields.2]
  case getServiceByPid.getServiceByPid.refl => rw [signedDatum_injective hfields]
  case serviceInfo.serviceInfo.refl =>
    obtain ⟨hname, hstatus, hpid, hsup⟩ := hfields
    rw [text_injective hname, text_injective hstatus, text_injective hsup,
      optional_injective signedDatum_injective signedDatum_ne_nil hpid]
  case serviceList.serviceList.refl =>
    rw [(List.map_inj_right fun _ _ => ServiceEntry.toDatum_injective).1 hfields]
  case serviceByPid.serviceByPid.refl =>
    rw [optional_injective text_injective (fun _ => Datum.noConfusion) hfields.1,
      signedDatum_injective hfields.2]
  -- the others have one text or nothing
  all_goals first | rfl | rw [text_injective hfields]

/-- So no two messages are encoded alike. -/
theorem Message.toDatum_injective {m' : Message} (h : m.toDatum = m'.toDatum) : m = m' := by
  have h := structMap_injective h
  simp only [List.cons.injEq, Prod.mk.injEq, Datum.uint.injEq, true_and, and_true] at h
  obtain ⟨hid, hkind, hbody⟩ := h
  cases m
  cases m'
  rw [mk.injEq]
  exact ⟨UInt64.toNat_inj.1 hid, MessageKind.variant_injective (Variant.toDatum_injective hkind),
    MessageBody.variant_injective (Variant.toDatum_injective hbody)⟩

-- ==== the ranges

theorem ranged_structMap {fs : List (String × Datum)} (h : ∀ f ∈ fs, Ranged f.2) :
    Ranged (structMap fs) := by
  induction fs with
  | nil => exact True.intro
  | cons f fs ih =>
    exact ⟨⟨True.intro, h f List.mem_cons_self⟩, ih fun g hg => h g (List.mem_cons_of_mem _ hg)⟩

theorem ranged_signedDatum (i : Int32) : Ranged (signedDatum i) := by
  have hlo := i.le_toInt
  have hhi := i.toInt_lt
  unfold signedDatum
  split
  · next h =>
    show i.toInt.toNat < 2 ^ 64
    omega
  · next h =>
    show -(2 ^ 63) ≤ i.toInt ∧ i.toInt < 0
    omega

theorem ranged_optional (hf : ∀ a, Ranged (f a)) (x : Option A) : Ranged (optional f x) := by
  cases x with
  | none => exact True.intro
  | some a => exact hf a

theorem ranged_text (s : String) : Ranged (text s) := True.intro

theorem ServiceEntry.ranged (e : ServiceEntry) : Ranged e.toDatum := by
  refine ranged_structMap fun f hf => ?_
  simp only [List.mem_cons, List.not_mem_nil, or_false] at hf
  obtain rfl | rfl | rfl := hf
  · exact ranged_text _
  · exact ranged_text _
  · exact ranged_optional ranged_signedDatum _

theorem rangedAll_map (hf : ∀ a, Ranged (f a)) (xs : List A) : RangedAll (xs.map f) := by
  induction xs with
  | nil => exact True.intro
  | cons x xs ih => exact ⟨hf x, ih⟩

theorem Variant.ranged {v : Variant} (h : ∀ d ∈ v.fields, Ranged d) : Ranged v.toDatum := by
  cases v with
  | unit name => exact True.intro
  | struct name fs =>
    refine ⟨⟨True.intro, ranged_structMap fun f hf => ?_⟩, True.intro⟩
    exact h f.2 (List.mem_map_of_mem hf)

theorem MessageKind.ranged (k : MessageKind) : Ranged k.variant.toDatum := by
  cases k with
  | request => exact True.intro
  | response n => exact ⟨⟨True.intro, ⟨True.intro, n.toNat_lt⟩, True.intro⟩, True.intro⟩
  | event => exact True.intro

theorem ShutdownKind.ranged (k : ShutdownKind) : Ranged k.variant.toDatum := by
  cases k <;> exact True.intro

theorem MessageBody.ranged (b : MessageBody) : Ranged b.variant.toDatum := by
  refine Variant.ranged fun d hd => ?_
  cases b
  all_goals
    simp only [variant, Variant.fields, List.map_cons, List.map_nil, List.mem_cons,
      List.not_mem_nil, or_false] at hd
  case requestShutdown k => exact hd ▸ k.ranged
  case shutdown k => exact hd ▸ k.ranged
  case logToKmsg level message =>
    have hlevel := level.toNat_lt
    obtain rfl | rfl := hd
    · show level.toNat < 2 ^ 64
      omega
    · exact ranged_text _
  case getServiceByPid pid => exact hd ▸ ranged_signedDatum pid
  case serviceInfo name status pid supervisor =>
    obtain rfl | rfl | rfl | rfl := hd
    · exact ranged_text _
    · exact ranged_text _
    · exact ranged_optional ranged_signedDatum _
    · exact ranged_text _
  case serviceList services => exact hd ▸ rangedAll_map ServiceEntry.ranged services
  case serviceByPid name pid =>
    obtain rfl | rfl := hd
    · exact ranged_optional ranged_text _
    · exact ranged_signedDatum _
  all_goals exact hd ▸ ranged_text _

/-- Every number of a message is in the range of its format. -/
theorem Message.ranged (m : Message) : Ranged m.toDatum := by
  refine ranged_structMap fun f hf => ?_
  simp only [List.mem_cons, List.not_mem_nil, or_false] at hf
  obtain rfl | rfl | rfl := hf
  · exact m.id.toNat_lt
  · exact m.kind.ranged
  · exact m.body.ranged

/-- A message small enough for a frame fits the formats of the
channel. -/
theorem Message.fits
    (h : (MessagePack.encode m.toDatum).length ≤ maxMessageSize) : Fits m.toDatum :=
  fits_of_length _ m.ranged h

-- ==== the library

/-- Two messages with the same bytes are the same. -/
theorem encode_injective {m' : Message}
    (hlen : (MessagePack.encode m.toDatum).length ≤ maxMessageSize)
    (h : MessagePack.encode m.toDatum = MessagePack.encode m'.toDatum) : m = m' := by
  have hitem := encode_item _ (Message.fits hlen)
  have hitem' := encode_item _ (Message.fits (h ▸ hlen))
  exact Message.toDatum_injective (hitem.unique hitem' (congrArg (· ++ []) h)).1

open Classical in
/-- A library that does what is assumed of it. -/
noncomputable def reference : RmpSerde Unit Unit where
  toVec m := .ok (MessagePack.encode m.toDatum)
  fromSlice bytes :=
    if h : ∃ m : Message, MessagePack.encode m.toDatum = bytes then .ok h.choose
    else .error ()

theorem reference_structMap : reference.StructMap where
  toVec_eq m bytes h := by
    injection h with h
    exact h.symm
  fromSlice_eq m hlen := by
    have hex : ∃ m' : Message,
        MessagePack.encode m'.toDatum = MessagePack.encode m.toDatum := ⟨m, rfl⟩
    have hm : hex.choose = m := (encode_injective hlen hex.choose_spec.symm).symm
    exact (dif_pos hex).trans (congrArg Except.ok hm)

-- ==== the frame

section Framing

variable {E D : Type} {rmp : RmpSerde E D} {payload : List UInt8}

/-- The bytes around a payload. -/
def frame (payload : List UInt8) : List UInt8 :=
  magic ++ (toLE 4 payload.length ++ payload)

theorem length_frame (payload : List UInt8) :
    (frame payload).length = headerSize + payload.length := by
  have hfour := length_toLE 4 payload.length
  unfold frame
  rw [List.length_append, List.length_append, hfour]
  show 2 + (4 + payload.length) = 6 + payload.length
  omega

/-- The length is found at its place. -/
private theorem field_frame (payload rest : List UInt8) :
    ((frame payload ++ rest).drop 2).take 4 = toLE 4 payload.length := by
  have hfour := length_toLE 4 payload.length
  show (toLE 4 payload.length ++ payload ++ rest).take 4 = _
  rw [List.append_assoc, List.take_append_of_le_length (by omega),
    List.take_of_length_le (by omega)]

/-- And behind the header the payload. -/
private theorem payload_frame (payload rest : List UInt8) :
    ((frame payload ++ rest).drop headerSize).take payload.length = payload := by
  have hfour := length_toLE 4 payload.length
  show ((toLE 4 payload.length ++ payload ++ rest).drop 4).take payload.length = _
  rw [List.append_assoc, List.drop_append_of_le_length (by omega),
    List.drop_of_length_le (by omega), List.nil_append, List.take_left]

/-- `decode` hands the payload of a frame to the library, whatever
follows the frame. -/
theorem decode_payload (hlen : payload.length ≤ maxMessageSize)
    (hfrom : rmp.fromSlice payload = .ok m) (rest : List UInt8) :
    decode rmp (frame payload ++ rest) = .ok (m, headerSize + payload.length) := by
  have hmax : maxMessageSize = 65536 := rfl
  have hbuf : (frame payload ++ rest).length
      = headerSize + payload.length + rest.length := by
    rw [List.length_append, length_frame]
  unfold decode
  rw [if_neg (by omega), if_neg (fun h => h rfl), field_frame, leNat_toLE (by omega)]
  rw [if_neg (by omega), if_neg (by omega), payload_frame, hfrom]

/-- A frame that is not all there is incomplete. -/
theorem decode_incomplete (hlen : payload.length ≤ maxMessageSize)
    {buf : List UInt8} (hbuf : buf <+: frame payload)
    (hlt : buf.length < (frame payload).length) : decode rmp buf = .error .incomplete := by
  have hmax : maxMessageSize = 65536 := rfl
  have hhead : headerSize = 6 := rfl
  have hlength := length_frame payload
  unfold decode
  by_cases hshort : buf.length < headerSize
  · rw [if_pos hshort]
  · obtain ⟨more, hmore⟩ := hbuf
    have hmagic : buf.take 2 = magic := by
      have h : (buf ++ more).take 2 = buf.take 2 :=
        List.take_append_of_le_length (by omega)
      rw [hmore] at h
      exact h.symm
    have hfield : (buf.drop 2).take 4 = toLE 4 payload.length := by
      have h := field_frame payload []
      rw [List.append_nil, ← hmore, List.drop_append_of_le_length (by omega),
        List.take_append_of_le_length (by rw [List.length_drop]; omega)] at h
      exact h
    rw [if_neg hshort, if_neg (fun h => h hmagic), hfield, leNat_toLE (by omega)]
    rw [if_neg (by omega), if_pos (by omega)]

end Framing

end Dynamod.Common
