/-
How deep the calls of the decoder nest while init parses a message.

The depth counts the calls of `decode`, `decodeMap` and `decodeArray` that
are open at the same time, not bytes of native stack. A container opens
two, one for the value and one for its elements, and its elements stand
in a slice that is shorter by its header. So a slice of `n` bytes nests
`2 * n + 1` calls at most, and `n` headers of arrays with one element each
nest that many.

The calls are listed as the functions make them: `nestedCalls` for a call of
`decode` itself, and `lookupCalls`, `fieldCalls`, `parseCalls` for the
parser. That a list holds the calls of a function is tested by letting the
decoder trap on some of the slices (`Makes`): the function then traps exactly
if one of these is listed.
-/
import Dynamod.Init.Ipc
import Dynamod.Init.Proofs.Decode

namespace Dynamod.Init

open Lib MessagePack Msgpack

variable {calls : List Slice} {u : Slice} {k n : Nat} {key : List UInt8}

namespace Msgpack

variable {mem : Mem} {s t : Slice} {α β : Type}

-- ==== the calls a function makes

/-- The decoder, trapping on some slices. -/
def trapsOn (mem : Mem) (bad : Slice → Bool) (trap : Trap) : Slice → Checked Decoded :=
  fun t => if bad t then .error trap else decode mem t

/-- The calls of the decoder that a function makes: it traps with the decoder
if the decoder traps on one of them, and otherwise answers as ever. -/
def Makes (mem : Mem) (run : (Slice → Checked Decoded) → Checked α) (calls : List Slice) :
    Prop :=
  ∀ bad trap, run (trapsOn mem bad trap)
    = if calls.any bad then .error trap else run (decode mem)

/-- What does not use the decoder makes no call. -/
theorem makes_pure (x : Checked α) : Makes mem (fun _ => x) [] := fun _ _ => rfl

/-- A call of the decoder is one call. -/
theorem makes_call (t : Slice) : Makes mem (fun dec => dec t) [t] := by
  intro bad trap
  simp only [trapsOn, List.any_cons, List.any_nil, Bool.or_false]

/-- The calls of two functions, one behind the other. -/
theorem Makes.bind {run : (Slice → Checked Decoded) → Checked α}
    {next : α → (Slice → Checked Decoded) → Checked β} {rest : List Slice}
    (h : Makes mem run calls) (hok : ∀ {a}, run (decode mem) = .ok a → Makes mem (next a) rest)
    (herror : ∀ {e}, run (decode mem) = .error e → rest = []) :
    Makes mem (fun dec => run dec >>= fun a => next a dec) (calls ++ rest) := by
  intro bad trap
  dsimp only
  rw [h bad trap, List.any_append]
  by_cases hbad : calls.any bad = true
  · rw [if_pos hbad, hbad]
    rfl
  rw [if_neg hbad, Bool.eq_false_iff.2 hbad, Bool.false_or]
  cases hrun : run (decode mem) with
  | error e =>
    rw [herror hrun]
    rfl
  | ok a => exact hok hrun bad trap

/-- What follows without a call makes none. -/
theorem Makes.map {run : (Slice → Checked Decoded) → Checked α}
    (h : Makes mem run calls) (f : α → Checked β) :
    Makes mem (fun dec => run dec >>= f) calls := by
  have hbind := h.bind (fun {a} _ => makes_pure (f a)) fun _ => rfl
  rwa [List.append_nil] at hbind

/-- A call on the rest of a slice, and the calls behind it. -/
theorem makes_callAt {offset : Nat} {rest : DecodeResult → Nat → List Slice}
    {next : Decoded → (Slice → Checked Decoded) → Checked α}
    {go : DecodeResult → Nat → (Slice → Checked Decoded) → Checked α}
    (hnext : ∀ r, next (.ok r) = fun dec => addWord offset r.consumed >>= fun stop =>
      go r stop dec) (hgo : ∀ r stop, Makes mem (go r stop) (rest r stop))
    (herror : ∀ e, Makes mem (next (.error e)) []) :
    Makes mem (fun dec => s.tail offset >>= fun t => dec t >>= fun out => next out dec)
      (callAt (decode mem) s offset rest) := by
  unfold callAt
  cases s.tail offset with
  | error e => exact makes_pure _
  | ok t =>
    refine (makes_call t).bind (fun {out} hout => ?_) fun herr => ?_
    · rw [hout]
      cases out with
      | error e => exact herror e
      | ok r =>
        rw [hnext]
        dsimp only
        cases addWord offset r.consumed with
        | error e => exact makes_pure _
        | ok stop => exact hgo r stop
    · rw [herr]

/-- The loop over the items of a container makes the listed calls. -/
theorem makes_skipItems (n : Nat) : ∀ {offset : Nat},
    Makes mem (fun dec => skipItems dec s n offset) (skipCalls (decode mem) s n offset) := by
  induction n with
  | zero => exact fun {offset} => makes_pure _
  | succ n ih => exact makes_callAt (fun r => rfl) (fun r stop => ih) fun e => makes_pure _

-- ==== the depth

/-- The deepest of several calls. -/
def deepest (depth : Slice → Nat) (calls : List Slice) : Nat :=
  calls.foldr (fun t d => max (depth t) d) 0

theorem deepest_le {depth : Slice → Nat} {bound : Nat}
    (h : ∀ t ∈ calls, depth t ≤ bound) : deepest depth calls ≤ bound := by
  induction calls with
  | nil => exact Nat.zero_le _
  | cons t calls ih =>
    refine Nat.max_le.2 ⟨h t List.mem_cons_self, ih fun u hu => ?_⟩
    exact h u (List.mem_cons_of_mem _ hu)

theorem le_deepest {depth : Slice → Nat} (h : t ∈ calls) : depth t ≤ deepest depth calls := by
  induction calls with
  | nil => cases h
  | cons u calls ih =>
    rcases List.mem_cons.1 h with rfl | h
    · exact Nat.le_max_left _ _
    · exact Nat.le_trans (ih h) (Nat.le_max_right _ _)

/-- The slice of the elements of a container and their number. -/
def containerOf (mem : Mem) (s : Slice) : Option (Slice × Nat) :=
  match head (s.bytes mem) with
  | none => none
  | some (x, n) =>
    match elements x, s.tail n with
    | some k, .ok u => some (u, k)
    | _, _ => none

/-- The calls that a call of `decode` makes: those on the elements of a
container. -/
def nestedCalls (mem : Mem) (s : Slice) : List Slice :=
  match containerOf mem s with
  | none => []
  | some (u, k) => skipCalls (decode mem) u k 0

/-- The calls open at the deepest moment of a call of `decode`. -/
def depthWithin (mem : Mem) : Nat → Slice → Nat
  | 0, _ => 1
  | fuel + 1, s =>
    match containerOf mem s with
    | none => 1
    | some (u, k) => 2 + deepest (depthWithin mem fuel) (skipCalls (decode mem) u k 0)

def decodeDepth (mem : Mem) (s : Slice) : Nat := depthWithin mem s.len s

theorem containerOf_eq_some (h : containerOf mem s = some (u, k)) :
    ∃ x n, head (s.bytes mem) = some (x, n) ∧ elements x = some k ∧ s.tail n = .ok u := by
  unfold containerOf at h
  split at h
  · cases h
  · next x n hh =>
    split at h
    · next hk htail =>
      cases h
      exact ⟨x, n, hh, hk, htail⟩
    · cases h

theorem containerOf_eq {x : Head} (hh : head (s.bytes mem) = some (x, n))
    (hk : elements x = some k) (htail : s.tail n = .ok u) : containerOf mem s = some (u, k) := by
  unfold containerOf
  rw [hh]
  dsimp only
  rw [hk, htail]

/-- On a container `decode` makes the calls on its elements, and on anything
else none. -/
theorem makes_decodeBy (mem : Mem) (s : Slice) :
    Makes mem (fun dec => decodeBy mem dec s) (nestedCalls mem s) := by
  unfold nestedCalls containerOf
  cases hh : head (s.bytes mem) with
  | none => exact fun bad trap => decodeBy_no_head hh _ _
  | some p =>
    obtain ⟨x, n⟩ := p
    simp only [decodeBy_head hh]
    cases hk : elements x with
    | none => exact fun bad trap => afterHead_of_no_elements n hk
    | some k =>
      simp only [afterHead_elements hk]
      cases s.tail n with
      | error e => exact makes_pure _
      | ok u => exact (makes_skipItems k).map _

/-- The items of a container are shorter than it. -/
theorem containerOf_len (h : containerOf mem s = some (u, k)) : u.len < s.len := by
  obtain ⟨x, n, hh, -, htail⟩ := containerOf_eq_some h
  have hsize := head_size hh
  have hlen := tail_len htail
  omega

/-- There are at most two levels for each byte, and one more. -/
theorem depthWithin_le (mem : Mem) (fuel : Nat) :
    ∀ s : Slice, depthWithin mem fuel s ≤ 2 * s.len + 1 := by
  induction fuel with
  | zero =>
    intro s
    unfold depthWithin
    omega
  | succ fuel ih =>
    intro s
    unfold depthWithin
    split
    · omega
    · next u k hcontainer =>
      have hlen := containerOf_len hcontainer
      have hdeepest : deepest (depthWithin mem fuel) (skipCalls (decode mem) u k 0)
          ≤ 2 * u.len + 1 := by
        refine deepest_le fun t ht => Nat.le_trans (ih t) ?_
        have hle := len_of_mem_skipCalls k ht
        omega
      omega

/-- Headers of arrays with one element each, and nothing in the last. -/
theorem le_depthWithin_arrays (mem : Mem) (n : Nat) : ∀ {fuel : Nat} {s : Slice}, n ≤ fuel →
    s.bytes mem = List.replicate n 0x91 → 2 * n + 1 ≤ depthWithin mem fuel s := by
  induction n with
  | zero =>
    intro fuel s _ _
    cases fuel with
    | zero => exact Nat.le_refl 1
    | succ fuel =>
      unfold depthWithin
      split <;> omega
  | succ n ih =>
    intro fuel s hfuel hb
    have hlen : s.len = n + 1 := by
      rw [← Slice.length_bytes mem, hb, List.length_replicate]
    obtain ⟨u, hu, -, hulen, hub⟩ := Slice.tail_ok (s := s) (a := 1) (by omega)
    obtain ⟨t, ht, -, -, htb⟩ := Slice.tail_ok (s := u) (a := 0) (Nat.zero_le _)
    have hhead : head (s.bytes mem) = some (.array 1, 1) := by
      rw [hb]
      rfl
    have hcontainer : containerOf mem s = some (u, 1) := containerOf_eq hhead rfl hu
    have hcall : t ∈ skipCalls (decode mem) u 1 0 := by
      unfold skipCalls callAt
      rw [ht]
      exact List.mem_cons_self
    have htb' : t.bytes mem = List.replicate n 0x91 := by
      rw [htb, List.drop_zero, hub, hb]
      rfl
    cases fuel with
    | zero => omega
    | succ fuel =>
      have hdepth := ih (Nat.le_of_succ_le_succ hfuel) htb'
      have hle : depthWithin mem fuel t ≤ deepest (depthWithin mem fuel) _ :=
        le_deepest hcall
      unfold depthWithin
      rw [hcontainer]
      show 2 * (n + 1) + 1 ≤ 2 + deepest _ _
      omega

-- ==== the lookups

/-- The calls of the loop of `lookupMapString`. -/
def lookupLoopCalls (mem : Mem) (s : Slice) (key : List UInt8) : Nat → Nat → List Slice
  | 0, _ => []
  | n + 1, offset =>
    callAt (decode mem) s offset fun keyResult keyEnd =>
      callAt (decode mem) s keyEnd fun _ valEnd =>
        if keyResult.value.isString mem key then []
        else lookupLoopCalls mem s key n valEnd

/-- The calls of `lookupMapString`. -/
def lookupCalls (mem : Mem) (s : Slice) (key : List UInt8) : List Slice :=
  match s.get mem 0 with
  | .error _ => []
  | .ok tag =>
    if tag ≥ 0x80 ∧ tag ≤ 0x8f then
      lookupLoopCalls mem s key (tag &&& 0x0f).toNat 1
    else if tag = 0xde then
      match s.sub 1 3 with
      | .error _ => []
      | .ok count => lookupLoopCalls mem s key (beNat (count.bytes mem)) 3
    else []

theorem makes_lookupLoop (n : Nat) : ∀ {offset : Nat},
    Makes mem (fun dec => lookupLoop mem dec s key n offset)
      (lookupLoopCalls mem s key n offset) := by
  induction n with
  | zero => exact fun {offset} => makes_pure _
  | succ n ih =>
    intro offset
    refine makes_callAt (fun keyResult => rfl) (fun keyResult keyEnd => ?_)
      fun e => makes_pure _
    refine makes_callAt (fun valResult => rfl) (fun valResult valEnd => ?_)
      fun e => makes_pure _
    cases keyResult.value.isString mem key with
    | true => exact makes_pure _
    | false => exact ih

/-- So does a lookup. -/
theorem makes_lookupMapString (mem : Mem) (s : Slice) (key : List UInt8) :
    Makes mem (fun dec => lookupMapString mem s key dec) (lookupCalls mem s key) := by
  unfold lookupMapString lookupCalls Slice.get
  by_cases hlen : s.len = 0
  · simp only [if_pos hlen, if_neg (Nat.not_lt.2 (Nat.le_of_eq hlen))]
    exact makes_pure _
  simp only [if_neg hlen, if_pos (Nat.pos_of_ne_zero hlen)]
  show Makes mem (fun dec => ite _ _ _) (ite _ _ _)
  split_ifs with _ _ hshort
  · exact makes_lookupLoop _
  · rw [Slice.sub, dif_neg fun h => Nat.not_le.2 hshort h.2]
    exact makes_pure _
  · cases s.sub 1 3 with
    | error e => exact makes_pure _
    | ok count => exact makes_lookupLoop _
  · exact makes_pure _

/-- The calls of the loop lie behind the offset. -/
theorem len_of_mem_lookupLoopCalls (n : Nat) : ∀ {offset : Nat},
    t ∈ lookupLoopCalls mem s key n offset → t.len + offset ≤ s.len := by
  induction n with
  | zero =>
    intro offset h
    cases h
  | succ n ih =>
    intro offset h
    rcases len_of_mem_callAt h with hlen | ⟨keyResult, keyEnd, hkey, h⟩
    · omega
    have hkeyEnd := addWord_ok hkey
    rcases len_of_mem_callAt h with hlen | ⟨valResult, valEnd, hval, h⟩
    · omega
    have hvalEnd := addWord_ok hval
    split_ifs at h
    · cases h
    · have hlen := ih h
      omega

/-- The keys and values of a map are shorter than the map. -/
theorem len_of_mem_lookupCalls (h : t ∈ lookupCalls mem s key) : t.len < s.len := by
  unfold lookupCalls at h
  split at h
  · cases h
  · split_ifs at h
    · have hlen := len_of_mem_lookupLoopCalls _ h
      omega
    · split at h
      · cases h
      · have hlen := len_of_mem_lookupLoopCalls _ h
        omega
    · cases h

/-- The value found is shorter than the map. -/
theorem lookupMapString_len (h : lookupMapString mem s key = .ok (some t)) : t.len < s.len := by
  rcases lookup_spec mem s key with ⟨t', off, d, raw, ht', hentry, -, hbytes⟩ | ⟨hnone, -⟩
  · cases h.symm.trans ht'
    have hinside := hentry.inside
    rw [← hbytes, Slice.length_bytes, Slice.length_bytes] at hinside
    omega
  · cases h.symm.trans hnone

end Msgpack

-- ==== the parser

variable {mem : Mem} {raw payload t : Slice}

def fieldCalls (mem : Mem) (raw : Slice) (key : String) : List Slice :=
  lookupCalls mem raw (utf8 key) ++
    match lookupMapString mem raw (utf8 key) with
    | .ok (some value) => [value]
    | _ => []

/-- The calls of `parseLogToKmsg`. -/
def parseLogToKmsgCalls (mem : Mem) (raw : Slice) : List Slice :=
  fieldCalls mem raw "level" ++
    match uintField mem raw "level" with
    | .ok (some _) => fieldCalls mem raw "message"
    | _ => []

/-- The calls of `parseBody`; those of `parseShutdownRequest` are the ones for
its only field. -/
def parseBodyCalls (mem : Mem) (body : Slice) : Value → List Slice
  | .string _ => []
  | _ =>
    lookupCalls mem body (utf8 "RequestShutdown") ++
      match lookupMapString mem body (utf8 "RequestShutdown") with
      | .ok (some raw) => fieldCalls mem raw "kind"
      | .ok none =>
        lookupCalls mem body (utf8 "LogToKmsg") ++
          match lookupMapString mem body (utf8 "LogToKmsg") with
          | .ok (some raw) => parseLogToKmsgCalls mem raw
          | _ => []
      | .error _ => []

/-- The calls of `decode` that `parseMessage` makes. -/
def parseCalls (mem : Mem) (payload : Slice) : List Slice :=
  fieldCalls mem payload "body" ++
    match fieldOf mem payload "body" with
    | .ok (some (body, value)) => parseBodyCalls mem body value
    | _ => []

/-- The calls of the decoder open at the deepest moment of `parseMessage`. -/
def parseDepth (mem : Mem) (payload : Slice) : Nat :=
  deepest (decodeDepth mem) (parseCalls mem payload)

/-- A lookup, and the value it finds. -/
theorem makes_fieldOf (mem : Mem) (raw : Slice) (key : String) :
    Makes mem (fun dec => fieldOf mem raw key dec) (fieldCalls mem raw key) := by
  refine (makes_lookupMapString mem raw (utf8 key)).bind (fun {found} hfound => ?_)
    fun herror => by rw [herror]
  rw [hfound]
  cases found with
  | none => exact makes_pure _
  | some value => exact (makes_call value).map _

theorem makes_parseLogToKmsg (mem : Mem) (raw : Slice) :
    Makes mem (fun dec => parseLogToKmsg mem raw dec) (parseLogToKmsgCalls mem raw) := by
  have hlevel : Makes mem (fun dec => uintField mem raw "level" dec)
      (fieldCalls mem raw "level") := (makes_fieldOf mem raw "level").map _
  refine hlevel.bind (fun {level} hok => ?_) fun herror => by rw [herror]
  rw [hok]
  cases level with
  | none => exact makes_pure _
  | some level => exact ((makes_fieldOf mem raw "message").map _).map _

theorem makes_parseBody (mem : Mem) (body : Slice) (value : Value) :
    Makes mem (fun dec => parseBody mem body value dec) (parseBodyCalls mem body value) := by
  have hrequest : Makes mem (fun dec => parseBody mem body .nil dec)
      (parseBodyCalls mem body .nil) := by
    refine (makes_lookupMapString mem body _).bind (fun {found} hfound => ?_)
      fun herror => by rw [herror]
    rw [hfound]
    cases found with
    | some raw => exact ((makes_fieldOf mem raw "kind").map _).map _
    | none =>
      refine (makes_lookupMapString mem body _).bind (fun {found} hfound => ?_)
        fun herror => by rw [herror]
      rw [hfound]
      cases found with
      | none => exact makes_pure _
      | some raw => exact makes_parseLogToKmsg mem raw
  cases value with
  | string s => exact makes_pure _
  | _ => exact hrequest

/-- The calls listed are the ones that `parseMessage` makes. -/
theorem makes_parseMessage (mem : Mem) (payload : Slice) :
    Makes mem (fun dec => parseMessage mem payload dec) (parseCalls mem payload) := by
  refine (makes_fieldOf mem payload "body").bind (fun {found} hfound => ?_)
    fun herror => by rw [herror]
  rw [hfound]
  cases found with
  | none => exact makes_pure _
  | some field => exact makes_parseBody mem field.1 field.2

theorem len_of_mem_fieldCalls {key : String} (h : t ∈ fieldCalls mem raw key) :
    t.len < raw.len := by
  rcases List.mem_append.1 h with h | h
  · exact len_of_mem_lookupCalls h
  · split at h
    · next hlookup =>
      cases List.mem_singleton.1 h
      exact lookupMapString_len hlookup
    · cases h

theorem len_of_mem_parseLogToKmsgCalls (h : t ∈ parseLogToKmsgCalls mem raw) :
    t.len < raw.len := by
  rcases List.mem_append.1 h with h | h
  · exact len_of_mem_fieldCalls h
  · split at h
    · exact len_of_mem_fieldCalls h
    · cases h

theorem len_of_mem_parseBodyCalls {value : Value} (h : t ∈ parseBodyCalls mem raw value) :
    t.len < raw.len := by
  unfold parseBodyCalls at h
  split at h
  · cases h
  rcases List.mem_append.1 h with h | h
  · exact len_of_mem_lookupCalls h
  split at h
  · next hlookup =>
    exact Nat.lt_trans (len_of_mem_fieldCalls h) (lookupMapString_len hlookup)
  · rcases List.mem_append.1 h with h | h
    · exact len_of_mem_lookupCalls h
    · split at h
      · next hlookup =>
        exact Nat.lt_trans (len_of_mem_parseLogToKmsgCalls h) (lookupMapString_len hlookup)
      · cases h
  · cases h

theorem fieldOf_len {key : String} {value : Value}
    (h : fieldOf mem raw key = .ok (some (t, value))) : t.len < raw.len := by
  obtain ⟨found, hfound, h⟩ := Checked.bind_ok h
  cases found with
  | none => cases h
  | some u =>
    obtain ⟨out, -, h⟩ := Checked.bind_ok h
    cases out with
    | error e => cases h
    | ok r =>
      cases h
      exact lookupMapString_len hfound

/-- Every call is made on less than the payload. -/
theorem len_of_mem_parseCalls (h : t ∈ parseCalls mem payload) : t.len < payload.len := by
  rcases List.mem_append.1 h with h | h
  · exact len_of_mem_fieldCalls h
  · split at h
    · next hfield => exact Nat.lt_trans (len_of_mem_parseBodyCalls h) (fieldOf_len hfield)
    · cases h

/-- So the depth is bounded by the length of the payload. -/
theorem parseDepth_le (mem : Mem) (payload : Slice) :
    parseDepth mem payload ≤ 2 * payload.len - 1 := by
  refine deepest_le fun t ht => ?_
  have hlen := len_of_mem_parseCalls ht
  have hdepth : decodeDepth mem t ≤ 2 * t.len + 1 := depthWithin_le mem t.len t
  omega

/-- A map whose only key is `n` nested arrays. -/
theorem le_parseDepth_nested (hb : payload.bytes mem = 0x81 :: List.replicate n 0x91) :
    2 * n + 1 ≤ parseDepth mem payload := by
  have hlen : payload.len = n + 1 := by
    rw [← Slice.length_bytes mem, hb, List.length_cons, List.length_replicate]
  obtain ⟨t, ht, -, htlen, htb⟩ := Slice.tail_ok (s := payload) (a := 1) (by omega)
  have hcall : t ∈ lookupCalls mem payload (utf8 "body") := by
    unfold lookupCalls
    rw [Slice.get_zero hb]
    show t ∈ lookupLoopCalls mem payload (utf8 "body") 1 1
    unfold lookupLoopCalls callAt
    rw [ht]
    exact List.mem_cons_self
  have hmem : t ∈ parseCalls mem payload :=
    List.mem_append_left _ (List.mem_append_left _ hcall)
  have hbytes : t.bytes mem = List.replicate n 0x91 := by
    rw [htb, hb]
    rfl
  refine Nat.le_trans ?_ (le_deepest hmem)
  exact le_depthWithin_arrays mem n (by omega) hbytes

/-- A map around arrays that lie in one another. -/
theorem exists_nested (hn : n + 1 < 2 ^ 64) : ∃ (mem : Mem) (payload : Slice), payload.len = n + 1
    ∧ payload.bytes mem = 0x81 :: List.replicate n 0x91 := by
  let payload : Slice := ⟨0, n + 1, by omega⟩
  have hlength : payload.len = (0x81 :: List.replicate n (0x91 : UInt8)).length := by
    rw [List.length_cons, List.length_replicate]
  exact ⟨store (fun _ => 0) payload.ptr _, payload, rfl, Slice.bytes_store _ hlength⟩

/-- On every payload that init accepts the calls nest no deeper than a
constant, which is that of the longest payload: some payload attains it. The
calls counted are the ones made, by the parser and by the decoder itself. -/
theorem parseDepth_bounded : (∀ (mem : Mem) (payload : Slice), payload.len ≤ maxMessageSize →
      parseDepth mem payload ≤ 131071)
    ∧ (∃ (mem : Mem) (payload : Slice), payload.len = maxMessageSize
      ∧ parseDepth mem payload = 131071)
    ∧ ∀ (mem : Mem) (payload : Slice),
      Makes mem (fun dec => parseMessage mem payload dec) (parseCalls mem payload)
        ∧ ∀ s, decode mem s = decodeBy mem (decode mem) s
          ∧ Makes mem (fun dec => decodeBy mem dec s) (nestedCalls mem s) := by
  have hbound : ∀ (mem : Mem) (payload : Slice), payload.len ≤ maxMessageSize →
      parseDepth mem payload ≤ 131071 := by
    intro mem payload hlen
    have hle := parseDepth_le mem payload
    unfold maxMessageSize at hlen
    omega
  refine ⟨hbound, ?_, fun mem payload => ⟨makes_parseMessage mem payload, fun s => ?_⟩⟩
  · obtain ⟨mem, payload, hlen, hbytes⟩ := exists_nested (n := 65535) (by omega)
    refine ⟨mem, payload, hlen, ?_⟩
    exact Nat.le_antisymm (hbound _ _ (Nat.le_of_eq hlen)) (le_parseDepth_nested hbytes)
  · exact ⟨decode_eq_decodeBy mem s, makes_decodeBy mem s⟩

/-- A map whose key is three nested arrays. -/
def nestedMem : Mem := store (fun _ => 0) 0 [0x81, 0x91, 0x91, 0x91]

theorem nested_parseDepth : 7 ≤ parseDepth nestedMem ⟨0, 4, by decide⟩
    ∧ parseDepth nestedMem ⟨0, 4, by decide⟩ ≤ 131071 :=
  ⟨le_parseDepth_nested (n := 3) (by decide),
    parseDepth_bounded.1 nestedMem ⟨0, 4, by decide⟩ (by decide)⟩

end Dynamod.Init
