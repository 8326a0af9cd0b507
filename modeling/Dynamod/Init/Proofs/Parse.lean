/-
What the parser of init makes of a payload.

`Says bs c` is the meaning of a payload in terms of the MessagePack
entries it holds. `parse_spec`: the parser reports it, and where a
payload says nothing the answer is `unknown`. The one way to trap is
the cast of a log level above 255 (`Carries`).

A text is reported as a slice of the payload; its place is part of the
meaning, because what the caller reads there later depends on it.
-/
import Dynamod.Init.Ipc
import Dynamod.Init.Proofs.Msgpack

namespace Dynamod.Init

open Lib MessagePack Msgpack

/-- The spelling of a shutdown kind on the wire. -/
def ShutdownKind.text : ShutdownKind → String
  | .poweroff => "Poweroff"
  | .reboot => "Reboot"
  | .halt => "Halt"

/-- The meaning of a payload. A text stands at offset `off` of it. -/
inductive Content
  | heartbeat
  | requestShutdown (kind : ShutdownKind)
  | logToKmsg (level : Nat) (text : List UInt8) (off : Nat)

variable {c : Content}

/-- The payload has the meaning. -/
inductive Says (bs : List UInt8) : Content → Prop
  | heartbeat {off : Nat} {s raw : List UInt8} :
      Entry (utf8 "body") bs off (.str s) raw →
      s = utf8 "Heartbeat" ∨ s = utf8 "HeartbeatAck" → Says bs .heartbeat
  | requestShutdown {o₁ o₂ o₃ : Nat} {d₁ d₂ : Datum}
      {raw₁ raw₂ raw₃ : List UInt8} {kind : ShutdownKind} :
      Entry (utf8 "body") bs o₁ d₁ raw₁ →
      Entry (utf8 "RequestShutdown") raw₁ o₂ d₂ raw₂ →
      Entry (utf8 "kind") raw₂ o₃ (.str (utf8 kind.text)) raw₃ →
      Says bs (.requestShutdown kind)
  | logToKmsg {o₁ o₂ o₃ o₄ level : Nat} {d₁ d₂ : Datum}
      {raw₁ raw₂ raw₃ raw₄ text : List UInt8} :
      Entry (utf8 "body") bs o₁ d₁ raw₁ →
      (∀ o d raw, ¬ Entry (utf8 "RequestShutdown") raw₁ o d raw) →
      Entry (utf8 "LogToKmsg") raw₁ o₂ d₂ raw₂ →
      Entry (utf8 "level") raw₂ o₃ (.uint level) raw₃ →
      Entry (utf8 "message") raw₂ o₄ (.str text) raw₄ →
      Says bs (.logToKmsg level text (o₁ + o₂ + o₄ + (raw₄.length - text.length)))

/-- The answer of the parser for a meaning. -/
def Carries (mem : Mem) (ptr : Nat) : Content → Checked InitMessage → Prop
  | .heartbeat, out => out = .ok .heartbeat
  | .requestShutdown kind, out => out = .ok (.requestShutdown kind)
  | .logToKmsg level text off, out =>
    (level < 256 ∧ ∃ t, out = .ok (.logToKmsg (UInt8.ofNat level) t)
        ∧ Located mem t (ptr + off) text)
      ∨ (256 ≤ level ∧ out = .error .castTruncated)

section Fields

variable {mem : Mem} {s : Slice} {key : String}

/-- The value under a key is found and decoded. -/
theorem fieldOf_complete {off : Nat} {d : Datum} {raw : List UInt8}
    (h : Entry (utf8 key) (s.bytes mem) off d raw) :
    ∃ t v, fieldOf mem s key = .ok (some (t, v)) ∧ Located mem t (s.ptr + off) raw
      ∧ Shows mem (s.ptr + off + raw.length) v d := by
  obtain ⟨t, ht, hloc⟩ := lookup_complete h
  obtain ⟨r, hr, hreads⟩ := decode_complete (s := t) h.item
    ⟨[], by rw [List.append_nil, hloc.2]⟩
  refine ⟨t, r.value, ?_, hloc, ?_⟩
  · unfold fieldOf
    rw [ht]
    show (decode mem t).bind _ = _
    rw [hr]
    rfl
  · rw [← hloc.1]
    exact hreads.shows

theorem fieldOf_none (h : ∀ off d raw, ¬ Entry (utf8 key) (s.bytes mem) off d raw) :
    fieldOf mem s key = .ok none := by
  unfold fieldOf
  rcases lookup_spec mem s (utf8 key) with ⟨t, off, d, raw, -, hentry, -⟩ | hbad
  · exact absurd hentry (h off d raw)
  · rw [hbad.1]
    rfl

theorem fieldOf_spec (mem : Mem) (s : Slice) (key : String) :
    (∃ t v off d raw, fieldOf mem s key = .ok (some (t, v))
        ∧ Entry (utf8 key) (s.bytes mem) off d raw ∧ Located mem t (s.ptr + off) raw
        ∧ Shows mem (s.ptr + off + raw.length) v d)
      ∨ (fieldOf mem s key = .ok none
        ∧ ∀ off d raw, ¬ Entry (utf8 key) (s.bytes mem) off d raw) := by
  rcases lookup_spec mem s (utf8 key) with ⟨t, off, d, raw, -, hentry, -⟩ | hbad
  · obtain ⟨t, v, hf, hloc, hshows⟩ := fieldOf_complete hentry
    exact .inl ⟨t, v, off, d, raw, hf, hentry, hloc, hshows⟩
  · exact .inr ⟨fieldOf_none hbad.2, hbad.2⟩

theorem stringField_spec (mem : Mem) (s : Slice) (key : String) :
    (∃ u off text raw, stringField mem s key = .ok (some u)
        ∧ Entry (utf8 key) (s.bytes mem) off (.str text) raw
        ∧ Located mem u (s.ptr + (off + (raw.length - text.length))) text)
      ∨ (stringField mem s key = .ok none
        ∧ ∀ off text raw, ¬ Entry (utf8 key) (s.bytes mem) off (.str text) raw) := by
  unfold stringField
  rcases fieldOf_spec mem s key with ⟨t, v, off, d, raw, hf, hentry, -, hshows⟩ | hbad
  · rw [hf]
    obtain ⟨u, rfl, rfl⟩ | ⟨hv, hd⟩ := hshows.string_or
    · exact .inl ⟨u, off, _, raw, rfl, hentry, (hshows.located hentry.item).2⟩
    · refine .inr ⟨?_, fun off' text raw' h => hd text (hentry.unique h).2.1⟩
      cases v with
      | string u => exact absurd rfl (hv u)
      | nil => rfl
      | boolean b => rfl
      | uint n => rfl
      | int i => rfl
  · rw [hbad.1]
    exact .inr ⟨rfl, fun off text raw => hbad.2 off _ raw⟩

theorem uintField_spec (mem : Mem) (s : Slice) (key : String) :
    (∃ n off raw, uintField mem s key = .ok (some n)
        ∧ Entry (utf8 key) (s.bytes mem) off (.uint n) raw)
      ∨ (uintField mem s key = .ok none
        ∧ ∀ off n raw, ¬ Entry (utf8 key) (s.bytes mem) off (.uint n) raw) := by
  unfold uintField
  rcases fieldOf_spec mem s key with ⟨t, v, off, d, raw, hf, hentry, -, hshows⟩ | hbad
  · rw [hf]
    have hother : (∀ n, d ≠ .uint n) → ∀ off' n raw',
        ¬ Entry (utf8 key) (s.bytes mem) off' (.uint n) raw' :=
      fun hd off' n raw' h => hd n (hentry.unique h).2.1
    cases hshows with
    | uint n => exact .inl ⟨n, off, raw, rfl, hentry⟩
    | nil => exact .inr ⟨rfl, hother (by simp)⟩
    | bool b => exact .inr ⟨rfl, hother (by simp)⟩
    | str u _ => exact .inr ⟨rfl, hother (by simp)⟩
    | int i => exact .inr ⟨rfl, hother (by simp)⟩
    | array xs => exact .inr ⟨rfl, hother (by simp)⟩
    | map es => exact .inr ⟨rfl, hother (by simp)⟩
  · rw [hbad.1]
    exact .inr ⟨rfl, fun off n raw => hbad.2 off _ raw⟩

end Fields

-- ==== the parts

section Parts

variable {mem : Mem} {s : Slice}

theorem ShutdownKind.text_injective {kind kind' : ShutdownKind}
    (h : utf8 kind.text = utf8 kind'.text) : kind = kind' := by
  revert h
  cases kind <;> cases kind' <;> decide

theorem parseShutdownRequest_spec (mem : Mem) (s : Slice) :
    (∃ kind off raw, Entry (utf8 "kind") (s.bytes mem) off
          (.str (utf8 (ShutdownKind.text kind))) raw
        ∧ parseShutdownRequest mem s = .ok (.requestShutdown kind))
      ∨ ((∀ kind off raw, ¬ Entry (utf8 "kind") (s.bytes mem) off
          (.str (utf8 (ShutdownKind.text kind))) raw)
        ∧ parseShutdownRequest mem s = .ok .unknown) := by
  unfold parseShutdownRequest
  rcases stringField_spec mem s "kind" with ⟨u, off, text, raw, hf, hentry, -, rfl⟩ | hbad
  · rw [hf]
    show (∃ kind off raw, _ ∧ (if u.bytes mem = utf8 "Poweroff" then _ else _) = _)
      ∨ (_ ∧ (if u.bytes mem = utf8 "Poweroff" then _ else _) = _)
    split
    · next h =>
      rw [h] at hentry
      exact .inl ⟨.poweroff, off, raw, hentry, rfl⟩
    split
    · next h =>
      rw [h] at hentry
      exact .inl ⟨.reboot, off, raw, hentry, rfl⟩
    split
    · next h =>
      rw [h] at hentry
      exact .inl ⟨.halt, off, raw, hentry, rfl⟩
    · next h₁ h₂ h₃ =>
      refine .inr ⟨fun kind off' raw' h => ?_, rfl⟩
      have hk := (hentry.unique h).2.1
      injection hk with hk
      cases kind with
      | poweroff => exact h₁ hk
      | reboot => exact h₂ hk
      | halt => exact h₃ hk
  · rw [hbad.1]
    exact .inr ⟨fun kind off raw => hbad.2 off _ raw, rfl⟩

/-- The level and the text a log request names. -/
theorem parseLogToKmsg_spec (mem : Mem) (s : Slice) : (∃ level text o₃ o₄ raw₃ raw₄,
      Entry (utf8 "level") (s.bytes mem) o₃ (.uint level) raw₃
      ∧ Entry (utf8 "message") (s.bytes mem) o₄ (.str text) raw₄
      ∧ Carries mem s.ptr (.logToKmsg level text (o₄ + (raw₄.length - text.length)))
        (parseLogToKmsg mem s))
    ∨ ((∀ level text o₃ o₄ raw₃ raw₄, Entry (utf8 "level") (s.bytes mem) o₃ (.uint level) raw₃ →
        ¬ Entry (utf8 "message") (s.bytes mem) o₄ (.str text) raw₄)
      ∧ parseLogToKmsg mem s = .ok .unknown) := by
  unfold parseLogToKmsg
  rcases uintField_spec mem s "level" with ⟨level, o₃, raw₃, hlevel, hentry₃⟩ | hbad
  · rw [hlevel]
    rcases stringField_spec mem s "message" with ⟨u, o₄, text, raw₄, hmsg, hentry₄, hloc⟩ | hbad
    · refine .inl ⟨level, text, o₃, o₄, raw₃, raw₄, hentry₃, hentry₄, ?_⟩
      rw [hmsg]
      show Carries _ _ _ ((castWidth 8 level).bind _)
      unfold castWidth
      split
      · next h => exact .inl ⟨h, u, rfl, hloc⟩
      · next h => exact .inr ⟨Nat.not_lt.1 h, rfl⟩
    · rw [hbad.1]
      exact .inr ⟨fun _ text _ o₄ _ raw₄ _ => hbad.2 o₄ text raw₄, rfl⟩
  · rw [hbad.1]
    exact .inr ⟨fun level _ o₃ _ raw₃ _ h => absurd h (hbad.2 o₃ level raw₃), rfl⟩

end Parts

-- ==== the payload

section Payload

variable {mem : Mem} {s : Slice} {bs : List UInt8}

/-- The branch of `parseMessage` for a body that is not a string. -/
private def parseVariant (mem : Mem) (body : Slice) : Checked InitMessage :=
  parseBody mem body .nil

private theorem parseBody_variant {v : Value} (body : Slice)
    (h : ∀ u, v ≠ .string u) : parseBody mem body v = parseVariant mem body := by
  cases v with
  | string u => exact absurd rfl (h u)
  | nil => rfl
  | boolean b => rfl
  | uint n => rfl
  | int i => rfl

/-- What the parser may answer. -/
def Answered (mem : Mem) (s : Slice) (out : Checked InitMessage) : Prop :=
  (∃ c, Says (s.bytes mem) c ∧ Carries mem s.ptr c out)
    ∨ ((∀ c, ¬ Says (s.bytes mem) c) ∧ out = .ok .unknown)

/-- The meanings of a payload whose body is a variant with contents. -/
private theorem Says.of_variant {o₁ : Nat} {d₁ : Datum} {raw₁ : List UInt8}
    (hc : Says bs c) (hbody : Entry (utf8 "body") bs o₁ d₁ raw₁)
    (hd : ∀ text, d₁ ≠ .str text) : (∃ kind o₂ o₃ d₂ raw₂ raw₃, c = .requestShutdown kind
        ∧ Entry (utf8 "RequestShutdown") raw₁ o₂ d₂ raw₂
        ∧ Entry (utf8 "kind") raw₂ o₃ (.str (utf8 (ShutdownKind.text kind))) raw₃)
      ∨ ((∀ o d raw, ¬ Entry (utf8 "RequestShutdown") raw₁ o d raw)
        ∧ ∃ level text o₂ o₃ o₄ d₂ raw₂ raw₃ raw₄, Entry (utf8 "LogToKmsg") raw₁ o₂ d₂ raw₂
          ∧ Entry (utf8 "level") raw₂ o₃ (.uint level) raw₃
          ∧ Entry (utf8 "message") raw₂ o₄ (.str text) raw₄) := by
  cases hc with
  | heartbeat h _ => exact absurd (hbody.unique h).2.1 (hd _)
  | requestShutdown h h₂ h₃ =>
    obtain ⟨-, -, rfl⟩ := hbody.unique h
    exact .inl ⟨_, _, _, _, _, _, rfl, h₂, h₃⟩
  | logToKmsg h hno h₂ h₃ h₄ =>
    obtain ⟨-, -, rfl⟩ := hbody.unique h
    exact .inr ⟨hno, _, _, _, _, _, _, _, _, _, h₂, h₃, h₄⟩

private theorem parseVariant_spec {o₁ : Nat} {d₁ : Datum} {raw₁ : List UInt8}
    {t : Slice} (hbody : Entry (utf8 "body") (s.bytes mem) o₁ d₁ raw₁)
    (hloc : Located mem t (s.ptr + o₁) raw₁) (hd : ∀ text, d₁ ≠ .str text) :
    Answered mem s (parseVariant mem t) := by
  have hraw := hloc.2
  show Answered mem s ((lookupMapString mem t (utf8 "RequestShutdown")).bind _)
  rcases lookup_spec mem t (utf8 "RequestShutdown") with
    ⟨u, o₂, d₂, raw₂, hu, hentry, hloc₂⟩ | ⟨hnone, hno⟩
  · rw [hraw] at hentry
    rw [hu]
    rcases parseShutdownRequest_spec mem u with ⟨kind, o₃, raw₃, hkind, hout⟩ | hbad
    · rw [hloc₂.2] at hkind
      exact .inl ⟨_, .requestShutdown hbody hentry hkind, hout⟩
    -- the map says this variant and no other
    · refine .inr ⟨fun c hc => ?_, hbad.2⟩
      obtain ⟨kind, _, o₃, _, _, raw₃, -, h₂, h₃⟩ | ⟨hno, -⟩ := hc.of_variant hbody hd
      · obtain ⟨-, -, rfl⟩ := hentry.unique h₂
        rw [← hloc₂.2] at h₃
        exact hbad.1 kind o₃ raw₃ h₃
      · exact hno _ _ _ hentry
  · rw [hraw] at hno
    rw [hnone]
    rcases lookup_spec mem t (utf8 "LogToKmsg") with
      ⟨u, o₂, d₂, raw₂, hu, hentry, hloc₂⟩ | ⟨hnone', hno'⟩
    · rw [hraw] at hentry
      rw [hu]
      rcases parseLogToKmsg_spec mem u with ⟨level, text, o₃, o₄, raw₃, raw₄, h₃, h₄, hout⟩ | hbad
      · rw [hloc₂.2] at h₃ h₄
        refine .inl ⟨_, .logToKmsg hbody hno hentry h₃ h₄, ?_⟩
        rw [hloc₂.1, hloc.1] at hout
        obtain ⟨hl, w, hw, hp, hb⟩ | hbig := hout
        · refine .inl ⟨hl, w, hw, ?_, hb⟩
          rw [hp]
          omega
        · exact .inr hbig
      · refine .inr ⟨fun c hc => ?_, hbad.2⟩
        obtain ⟨_, _, _, _, _, _, -, h₂, -⟩
          | ⟨-, level, text, _, o₃, o₄, _, _, raw₃, raw₄, h₂, h₃, h₄⟩ := hc.of_variant hbody hd
        · exact hno _ _ _ h₂
        · obtain ⟨-, -, rfl⟩ := hentry.unique h₂
          rw [← hloc₂.2] at h₃ h₄
          exact hbad.1 level text o₃ o₄ raw₃ raw₄ h₃ h₄
    · rw [hraw] at hno'
      rw [hnone']
      refine .inr ⟨fun c hc => ?_, rfl⟩
      obtain ⟨_, _, _, _, _, _, -, h₂, -⟩
        | ⟨-, _, _, _, _, _, _, _, _, _, h₂, -⟩ := hc.of_variant hbody hd
      · exact hno _ _ _ h₂
      · exact hno' _ _ _ h₂

/-- The parser reports the meaning of a payload. -/
theorem parse_spec (mem : Mem) (s : Slice) : Answered mem s (parseMessage mem s) := by
  unfold parseMessage
  rcases fieldOf_spec mem s "body" with ⟨t, v, o₁, d₁, raw₁, hf, hbody, hloc, hshows⟩ | hbad
  · rw [hf]
    show Answered mem s (parseBody mem t v)
    obtain ⟨u, rfl, rfl⟩ | ⟨hv, hd⟩ := hshows.string_or
    · show Answered mem s (if u.bytes mem = utf8 "Heartbeat" then _ else _)
      split
      · next h => exact .inl ⟨_, .heartbeat hbody (.inl h), rfl⟩
      split
      · next h => exact .inl ⟨_, .heartbeat hbody (.inr h), rfl⟩
      · next h₁ h₂ =>
        rw [ite_self]
        refine .inr ⟨fun c hc => ?_, rfl⟩
        cases hc with
        | heartbeat h hs =>
          have htext := (hbody.unique h).2.1
          injection htext with htext
          rw [← htext] at hs
          exact hs.elim h₁ h₂
        | requestShutdown h h₂ _ =>
          obtain ⟨-, -, rfl⟩ := hbody.unique h
          exact Entry.of_str hbody.item h₂
        | logToKmsg h _ h₂ _ _ =>
          obtain ⟨-, -, rfl⟩ := hbody.unique h
          exact Entry.of_str hbody.item h₂
    · rw [parseBody_variant t hv]
      exact parseVariant_spec hbody hloc hd
  · rw [hbad.1]
    refine .inr ⟨fun c hc => ?_, rfl⟩
    cases hc with
    | heartbeat h _ => exact hbad.2 _ _ _ h
    | requestShutdown h _ _ => exact hbad.2 _ _ _ h
    | logToKmsg h _ _ _ _ => exact hbad.2 _ _ _ h

theorem Says.unique {c' : Content} (h : Says bs c) (h' : Says bs c') : c = c' := by
  cases h with
  | heartbeat h _ =>
    cases h' with
    | heartbeat _ _ => rfl
    | requestShutdown h' h₂ _ =>
      obtain ⟨-, -, rfl⟩ := h.unique h'
      exact absurd h₂ (Entry.of_str h.item)
    | logToKmsg h' _ h₂ _ _ =>
      obtain ⟨-, -, rfl⟩ := h.unique h'
      exact absurd h₂ (Entry.of_str h.item)
  | requestShutdown h h₂ h₃ =>
    cases h' with
    | heartbeat h' _ =>
      obtain ⟨-, -, rfl⟩ := h.unique h'
      exact absurd h₂ (Entry.of_str h'.item)
    | requestShutdown h' h₂' h₃' =>
      obtain ⟨-, -, rfl⟩ := h.unique h'
      obtain ⟨-, -, rfl⟩ := h₂.unique h₂'
      have hk := (h₃.unique h₃').2.1
      injection hk with hk
      rw [ShutdownKind.text_injective hk]
    | logToKmsg h' hno _ _ _ =>
      obtain ⟨-, -, rfl⟩ := h.unique h'
      exact absurd h₂ (hno _ _ _)
  | logToKmsg h hno h₂ h₃ h₄ =>
    cases h' with
    | heartbeat h' _ =>
      obtain ⟨-, -, rfl⟩ := h.unique h'
      exact absurd h₂ (Entry.of_str h'.item)
    | requestShutdown h' h₂' _ =>
      obtain ⟨-, -, rfl⟩ := h.unique h'
      exact absurd h₂' (hno _ _ _)
    | logToKmsg h' _ h₂' h₃' h₄' =>
      obtain ⟨rfl, -, rfl⟩ := h.unique h'
      obtain ⟨rfl, -, rfl⟩ := h₂.unique h₂'
      obtain ⟨-, hl, -⟩ := h₃.unique h₃'
      obtain ⟨rfl, ht, rfl⟩ := h₄.unique h₄'
      injection hl with hl
      injection ht with ht
      rw [hl, ht]

/-- The answer for a payload with a known meaning. -/
theorem parse_meaning (h : Says (s.bytes mem) c) : Carries mem s.ptr c (parseMessage mem s) := by
  rcases parse_spec mem s with ⟨c', h', hout⟩ | hbad
  · rw [h.unique h']
    exact hout
  · exact absurd h (hbad.1 c)

/-- The payload is a log request whose level is no `u8`. -/
def OversizeLevel (bs : List UInt8) : Prop :=
  ∃ level text off, Says bs (.logToKmsg level text off) ∧ 256 ≤ level

/-- The parser traps on a log level above 255 and on nothing else. -/
theorem parse_error_iff (mem : Mem) (s : Slice) :
    (∃ e, parseMessage mem s = .error e) ↔ OversizeLevel (s.bytes mem) := by
  constructor
  · rintro ⟨e, he⟩
    rcases parse_spec mem s with ⟨c, hc, hout⟩ | hbad
    · rw [he] at hout
      cases c with
      | heartbeat => cases hout
      | requestShutdown kind => cases hout
      | logToKmsg level text off =>
        obtain ⟨-, t, ht, -⟩ | ⟨hlevel, -⟩ := hout
        · cases ht
        · exact ⟨level, text, off, hc, hlevel⟩
    · rw [he] at hbad
      cases hbad.2
  · rintro ⟨level, text, off, hc, hlevel⟩
    obtain ⟨hsmall, -⟩ | ⟨-, he⟩ := parse_meaning hc
    · omega
    · exact ⟨_, he⟩

/-- The answer depends on the bytes of the payload and its place
alone. -/
theorem parse_congr {mem mem' : Mem} {s s' : Slice} (hptr : s.ptr = s'.ptr)
    (hb : s.bytes mem = s'.bytes mem') : parseMessage mem s = parseMessage mem' s' := by
  rcases parse_spec mem s with ⟨c, hc, hout⟩ | hbad
  · have hout' := parse_meaning (hb ▸ hc)
    cases c with
    | heartbeat => exact hout.trans hout'.symm
    | requestShutdown kind => exact hout.trans hout'.symm
    | logToKmsg level text off =>
      rw [hptr] at hout
      obtain ⟨hl, t, ht, hloc⟩ | ⟨hl, he⟩ := hout
      · obtain ⟨-, t', ht', hloc'⟩ | ⟨hl', -⟩ := hout'
        · rw [ht, ht', Located.unique hloc hloc']
        · omega
      · obtain ⟨hl', -⟩ | ⟨-, he'⟩ := hout'
        · omega
        · rw [he, he']
  · rcases parse_spec mem' s' with ⟨c, hc, -⟩ | hbad'
    · exact absurd (hb ▸ hc) (hbad.1 c)
    · exact hbad.2.trans hbad'.2.symm

end Payload

end Dynamod.Init
