/-
The decoder of init against the MessagePack grammar.

`decodeBy_form` says once what a call of `decode` does, from the
tag table of Lib/MessagePack.lean: read the field behind the tag if it
is there, then report the scalar, cut out the string, or step over the
elements. Everything else follows from it by induction.
-/
import Dynamod.Lib.MessagePack
import Dynamod.Init.Msgpack

namespace Dynamod.Init.Msgpack

open Lib MessagePack

variable {bs raw : List UInt8} {x : Head} {n : Nat} {d : Datum}

-- ==== one call of decode

/-- The value that reports a scalar. -/
def valueOf : Datum → Value
  | .bool b => .boolean b
  | .uint n => .uint n
  | .int i => .int i
  | _ => .nil

/-- What `decode` does once the head of `n` bytes is read. -/
def afterHead (dec : Slice → Checked Decoded) (buf : Slice) (n : Nat) : Head → Checked Decoded
  | .scalar d => .ok (.ok { value := valueOf d, consumed := n })
  | .str len => stringAt buf n len
  | .array count => do decodeArray dec (← buf.tail n) count n
  | .map count => do decodeMap dec (← buf.tail n) count n

/-- What `decode` does once the tag is read. -/
def afterTag (dec : Slice → Checked Decoded) (buf : Slice) (rest : List UInt8) :
    Option (Nat × (Nat → Head)) → Checked Decoded
  | some f =>
    if buf.len < 1 + f.1 then .ok (.error .unexpectedEof)
    else afterHead dec buf (1 + f.1) (f.2 (beNat (rest.take f.1)))
  | none => .ok (.error .unsupportedType)

section Form

variable {mem : Mem} {buf : Slice} {tag : UInt8} {rest : List UInt8}
  {dec : Slice → Checked Decoded} (hb : buf.bytes mem = tag :: rest)

include hb

theorem len_of_bytes : buf.len = 1 + rest.length := by
  rw [← Slice.length_bytes mem, hb, List.length_cons, Nat.add_comm]

theorem withField_eq (k : Nat) (use : Nat → Checked Decoded) :
    withField mem buf k use
      = if buf.len < 1 + k then .ok (.error .unexpectedEof)
        else use (beNat (rest.take k)) := by
  have hlen := len_of_bytes hb
  unfold withField
  split
  · rfl
  · next hk =>
    obtain ⟨t, ht, -, htl, htb⟩ := Slice.tail_ok (s := buf) (a := 1) (by omega)
    obtain ⟨u, hu, -, -, hub⟩ := Slice.sub_ok (s := t) (a := 0) (b := k)
      (Nat.zero_le k) (by omega)
    rw [ht]
    show (t.sub 0 k).bind _ = _
    rw [hu]
    show use (beNat (u.bytes mem)) = _
    rw [hub, htb, hb, List.drop_zero, List.drop_one, List.tail_cons, Nat.sub_zero]

theorem decodeUint_eq (k : Nat) : decodeUint mem buf k
    = afterTag dec buf rest (some (k, fun n => .scalar (.uint n))) :=
  withField_eq hb k _

theorem decodeInt_eq (k : Nat) : decodeInt mem buf k
    = afterTag dec buf rest (some (k, fun n => .scalar (.int (signed k n)))) :=
  withField_eq hb k _

theorem decodeStr_eq (k : Nat) :
    decodeStr mem buf k = afterTag dec buf rest (some (k, fun n => .str n)) :=
  withField_eq hb k _

/-- The `switch` of `decode`, tag by tag. -/
theorem decodeTag_eq (hlo : 0xc0 ≤ tag.toNat) (hhi : tag.toNat < 0xe0) :
    decodeTag mem dec buf tag = afterTag dec buf rest (form tag) := by
  have hlen := len_of_bytes hb
  have hone : ¬ buf.len < 1 + 0 := by omega
  have hne : ∀ n : Nat, tag ≠ UInt8.ofNat n → tag.toNat ≠ n :=
    fun n h he => h (by rw [← he, UInt8.ofNat_toNat])
  by_cases h₁ : tag = 0xc0
  · subst h₁
    exact (if_neg hone).symm
  by_cases h₂ : tag = 0xc2
  · subst h₂
    exact (if_neg hone).symm
  by_cases h₃ : tag = 0xc3
  · subst h₃
    exact (if_neg hone).symm
  by_cases h₄ : tag = 0xcc
  · subst h₄
    exact decodeUint_eq hb 1
  by_cases h₅ : tag = 0xcd
  · subst h₅
    exact decodeUint_eq hb 2
  by_cases h₆ : tag = 0xce
  · subst h₆
    exact decodeUint_eq hb 4
  by_cases h₇ : tag = 0xcf
  · subst h₇
    exact decodeUint_eq hb 8
  by_cases h₈ : tag = 0xd0
  · subst h₈
    exact decodeInt_eq hb 1
  by_cases h₉ : tag = 0xd1
  · subst h₉
    exact decodeInt_eq hb 2
  by_cases h₁₀ : tag = 0xd2
  · subst h₁₀
    exact decodeInt_eq hb 4
  by_cases h₁₁ : tag = 0xd3
  · subst h₁₁
    exact decodeInt_eq hb 8
  by_cases h₁₂ : tag = 0xd9
  · subst h₁₂
    exact decodeStr_eq hb 1
  by_cases h₁₃ : tag = 0xda
  · subst h₁₃
    exact decodeStr_eq hb 2
  by_cases h₁₄ : tag = 0xdc
  · subst h₁₄
    exact withField_eq hb 2 fun count => do
      decodeArray dec (← buf.tail 3) count 3
  by_cases h₁₅ : tag = 0xde
  · subst h₁₅
    exact withField_eq hb 2 fun count => do
      decodeMap dec (← buf.tail 3) count 3
  -- every tag that is left is refused by both
  have hform : form tag = none := by
    unfold form
    rw [if_neg (by omega), if_neg (by omega), if_neg (by omega),
      if_neg (by omega), if_neg (hne 0xc0 h₁), if_neg (hne 0xc2 h₂),
      if_neg (hne 0xc3 h₃), if_neg (hne 0xcc h₄), if_neg (hne 0xcd h₅),
      if_neg (hne 0xce h₆), if_neg (hne 0xcf h₇), if_neg (hne 0xd0 h₈),
      if_neg (hne 0xd1 h₉), if_neg (hne 0xd2 h₁₀), if_neg (hne 0xd3 h₁₁),
      if_neg (hne 0xd9 h₁₂), if_neg (hne 0xda h₁₃), if_neg (hne 0xdc h₁₄),
      if_neg (hne 0xde h₁₅), if_neg (by omega)]
  rw [hform]
  unfold decodeTag
  rw [if_neg h₁, if_neg h₂, if_neg h₃, if_neg h₄, if_neg h₅, if_neg h₆,
    if_neg h₇, if_neg h₈, if_neg h₉, if_neg h₁₀, if_neg h₁₁, if_neg h₁₂,
    if_neg h₁₃, if_neg h₁₄, if_neg h₁₅]
  rfl

/-- One call of `decode`, from the tag table. -/
theorem decodeBy_form (dec : Slice → Checked Decoded) :
    decodeBy mem dec buf = afterTag dec buf rest (form tag) := by
  have hlen := len_of_bytes hb
  have hone : ¬ buf.len < 1 + 0 := by omega
  have hand₄ : tag.toNat &&& 15 = tag.toNat % 16 :=
    Nat.and_two_pow_sub_one_eq_mod _ 4
  have hand₅ : tag.toNat &&& 31 = tag.toNat % 32 :=
    Nat.and_two_pow_sub_one_eq_mod _ 5
  rw [decodeBy, if_neg (by omega), Slice.get_zero hb]
  show (if tag ≤ 0x7f then _ else _) = _
  -- the ranges of the source, over the number of the tag
  simp only [ge_iff_le, UInt8.le_iff_toNat_le, UInt8.toNat_and, UInt8.reduceToNat]
  by_cases h₁ : tag.toNat < 0x80
  · rw [if_pos (by omega), form_posFixint h₁]
    exact (if_neg hone).symm
  rw [if_neg (by omega)]
  by_cases h₂ : 0xe0 ≤ tag.toNat
  · rw [if_pos h₂, form_negFixint h₂]
    exact (if_neg hone).symm
  rw [if_neg h₂]
  by_cases h₃ : tag.toNat < 0x90
  · rw [if_pos (by omega), form_fixmap (by omega) h₃,
      show tag.toNat &&& 15 = tag.toNat - 0x80 by omega]
    exact (if_neg hone).symm
  rw [if_neg (by omega)]
  by_cases h₄ : tag.toNat < 0xa0
  · rw [if_pos (by omega), form_fixarray (by omega) h₄,
      show tag.toNat &&& 15 = tag.toNat - 0x90 by omega]
    exact (if_neg hone).symm
  rw [if_neg (by omega)]
  by_cases h₅ : tag.toNat < 0xc0
  · rw [if_pos (by omega), form_fixstr (by omega) h₅,
      show tag.toNat &&& 31 = tag.toNat - 0xa0 by omega]
    exact (if_neg hone).symm
  rw [if_neg (by omega)]
  exact decodeTag_eq hb (by omega) (by omega)

end Form

-- ==== the decoder and the grammar

/-- The value reported for an item that ends at address `stop`: a
container is reported as `nil`, a string as the slice of its bytes. -/
inductive Shows (mem : Mem) (stop : Nat) : Value → Datum → Prop
  | nil : Shows mem stop .nil .nil
  | bool (b : Bool) : Shows mem stop (.boolean b) (.bool b)
  | uint (n : Nat) : Shows mem stop (.uint n) (.uint n)
  | int (i : Int) : Shows mem stop (.int i) (.int i)
  | str (s : Slice) : s.ptr + s.len = stop →
      Shows mem stop (.string s) (.str (s.bytes mem))
  | array (xs : List Datum) : Shows mem stop .nil (.array xs)
  | map (es : List (Datum × Datum)) : Shows mem stop .nil (.map es)

/-- A result of `decode` that is right: it reports the item `raw` at the
start of the slice. -/
structure Reads (mem : Mem) (s : Slice) (r : DecodeResult) (d : Datum)
    (raw : List UInt8) : Prop where
  item : Item d raw
  start : raw <+: s.bytes mem
  consumed : r.consumed = raw.length
  shows : Shows mem (s.ptr + raw.length) r.value d

/-- What `decode` may answer: an item at the start of the slice, or an
error where there is none. It never traps. -/
def Decodes (mem : Mem) (s : Slice) (out : Checked Decoded) : Prop :=
  (∃ r d raw, out = .ok (.ok r) ∧ Reads mem s r d raw)
    ∨ ∃ e, out = .ok (.error e) ∧ ∀ d raw, Item d raw → ¬ raw <+: s.bytes mem

/-- The same for a row of `n` items. -/
def Skips (bs : List UInt8) (n offset : Nat) (out : Checked (Except DecodeError Nat)) : Prop :=
  (∃ ps : List Part, out = .ok (.ok (offset + (flat ps).length))
      ∧ ps.length = n ∧ (∀ p ∈ ps, Item p.1 p.2) ∧ flat ps <+: bs.drop offset)
    ∨ ∃ e, out = .ok (.error e)
      ∧ ∀ ps : List Part, ps.length = n → (∀ p ∈ ps, Item p.1 p.2) →
        ¬ flat ps <+: bs.drop offset

section Spec

variable {mem : Mem} {s : Slice} {dec : Slice → Checked Decoded} {N : Nat}

theorem append_prefix_drop {a : Nat} (h : raw <+: bs.drop a)
    {more : List UInt8} : raw ++ more <+: bs.drop a ↔ more <+: bs.drop (a + raw.length) := by
  obtain ⟨r, hr⟩ := h
  rw [← List.drop_drop, ← hr, List.drop_left]
  exact List.prefix_append_right_inj raw

/-- Where the bytes do not begin with a head, there is no item. -/
theorem no_item_of_head (hh : head bs = none)
    (d : Datum) (raw : List UInt8) (hitem : Item d raw) : ¬ raw <+: bs := by
  rintro ⟨r, hr⟩
  obtain ⟨x, n, hx⟩ := hitem.head_some
  rw [← hr, head_append hx r] at hh
  cases hh

/-- The bytes of a head and what follows them. -/
theorem take_append_prefix {r : List UInt8} (h : r <+: bs.drop n) : bs.take n ++ r <+: bs := by
  obtain ⟨t, ht⟩ := h
  exact ⟨t, by rw [List.append_assoc, ht, List.take_append_drop]⟩

theorem stringAt_spec {len : Nat} (hh : head (s.bytes mem) = some (.str len, n)) :
    Decodes mem s (stringAt s n len) := by
  have hn := head_size hh
  obtain ⟨hn9, hlen⟩ := head_plain hh
  rw [Slice.length_bytes] at hn
  have hlen : len < 2 ^ 16 := hlen
  unfold stringAt
  rw [addWord_eq (by omega)]
  show Decodes mem s (if s.len < n + len then _ else _)
  split
  · next hshort =>
    refine .inr ⟨_, rfl, fun d raw hitem hp => ?_⟩
    -- the item would have to be the string that was announced
    obtain ⟨body, -, hbody, -, rfl⟩ := hitem.behind hh hp
    have := hbody.length_le
    rw [List.length_drop, Slice.length_bytes] at this
    omega
  · next hlong =>
    obtain ⟨t, ht, htp, htl, htb⟩ := Slice.sub_ok (s := s)
      (Nat.le_add_right n len) (Nat.not_lt.1 hlong)
    rw [ht]
    rw [Nat.add_sub_cancel_left] at htl htb
    have hhead := head_take hh
    have htake : ((s.bytes mem).take n).length = n := by
      rw [List.length_take, Slice.length_bytes, Nat.min_eq_left hn.2]
    refine .inl ⟨_, .str (t.bytes mem), (s.bytes mem).take n ++ t.bytes mem, rfl, ?_, ?_, ?_, ?_⟩
    · refine .str ?_
      rw [hhead, Slice.length_bytes, htl]
    · refine take_append_prefix ?_
      rw [htb]
      exact List.take_prefix _ _
    · rw [List.length_append, htake, Slice.length_bytes, htl]
    · refine .str t ?_
      rw [List.length_append, htake, Slice.length_bytes, htp, htl]
      omega

/-- A result for the item at an offset of the slice. -/
structure ReadsAt (mem : Mem) (s : Slice) (offset : Nat) (r : DecodeResult)
    (d : Datum) (raw : List UInt8) : Prop where
  item : Item d raw
  start : raw <+: (s.bytes mem).drop offset
  shows : Shows mem (s.ptr + offset + raw.length) r.value d
  stop : addWord offset r.consumed = .ok (offset + raw.length)
  inside : offset + raw.length ≤ s.len

variable (hdec : ∀ t : Slice, t.len ≤ N → Decodes mem t (dec t))

include hdec

/-- The decoder at an offset of the slice. -/
theorem decode_at (hs : s.len ≤ N) {offset : Nat} (ho : offset ≤ s.len) : ∃ t, s.tail offset = .ok t
      ∧ ((∃ r d raw, dec t = .ok (.ok r) ∧ ReadsAt mem s offset r d raw)
        ∨ ∃ e, dec t = .ok (.error e)
          ∧ ∀ d raw, Item d raw → ¬ raw <+: (s.bytes mem).drop offset) := by
  obtain ⟨t, ht, htp, htl, htb⟩ := Slice.tail_ok ho
  refine ⟨t, ht, ?_⟩
  rw [← htb mem]
  refine (hdec t (by omega)).imp_left ?_
  rintro ⟨r, d, raw, hr, hreads⟩
  have hstart := hreads.start
  rw [htb] at hstart
  have hin : offset + raw.length ≤ s.len := by
    have := hstart.length_le
    rw [List.length_drop, Slice.length_bytes] at this
    omega
  refine ⟨r, d, raw, hr, hreads.item, hstart, ?_, ?_, hin⟩
  · rw [← htp]
    exact hreads.shows
  · rw [hreads.consumed]
    exact addWord_eq (by have := s.fits; omega)

/-- `skipItems` steps over a row of items. -/
theorem skipItems_spec (hs : s.len ≤ N) (n offset : Nat) (ho : offset ≤ s.len) :
    Skips (s.bytes mem) n offset (skipItems dec s n offset) := by
  induction n generalizing offset with
  | zero =>
    refine .inl ⟨[], rfl, rfl, fun p hp => ?_, List.nil_prefix⟩
    cases hp
  | succ n ih =>
    obtain ⟨t, ht, hout⟩ := decode_at hdec hs ho
    unfold skipItems
    rw [ht]
    show Skips _ _ _ ((dec t).bind _)
    rcases hout with ⟨r, d, raw, hr, hat⟩ | ⟨e, he, hno⟩
    · rw [hr]
      show Skips _ _ _ ((addWord offset r.consumed).bind _)
      rw [hat.stop]
      show Skips _ _ _ (skipItems dec s n (offset + raw.length))
      rcases ih (offset + raw.length) hat.inside with ⟨ps, hps, hn, hitems, hp⟩ | ⟨e, he, hno⟩
      · refine .inl ⟨(d, raw) :: ps, ?_, congrArg (· + 1) hn, ?_, ?_⟩
        · rw [hps, flat_cons, List.length_append, Nat.add_assoc]
        · intro p hmem
          cases hmem with
          | head => exact hat.item
          | tail _ hmem => exact hitems p hmem
        · rw [flat_cons]
          exact (append_prefix_drop hat.start).2 hp
      · refine .inr ⟨e, he, fun ps hn hps hp => ?_⟩
        cases ps with
        | nil => cases hn
        | cons p ps =>
          rw [flat_cons] at hp
          -- any other row begins with the item that was read
          obtain ⟨-, hraw⟩ := item_unique hat.item
            (hps p List.mem_cons_self) hat.start
            ((List.prefix_append _ _).trans hp)
          rw [← hraw] at hp
          exact hno ps (Nat.succ.inj hn)
            (fun q hq => hps q (List.mem_cons_of_mem _ hq))
            ((append_prefix_drop hat.start).1 hp)
    · rw [he]
      refine .inr ⟨e, rfl, fun ps hn hps hp => ?_⟩
      cases ps with
      | nil => cases hn
      | cons p ps =>
        rw [flat_cons] at hp
        exact hno p.1 p.2 (hps p List.mem_cons_self)
          ((List.prefix_append _ _).trans hp)

/-- The elements of a container, and the container around them. -/
theorem container_spec {k : Nat} (hN : s.len ≤ N + 1) (hh : head (s.bytes mem) = some (x, n))
    (hbuild : ∀ ps : List Part, ps.length = k → (∀ p ∈ ps, Item p.1 p.2) →
      ∃ d, Item d ((s.bytes mem).take n ++ flat ps)
        ∧ ∀ stop, Shows mem stop .nil d) (hitem : ∀ d raw, Item d raw → raw <+: s.bytes mem →
      ∃ ps : List Part, ps.length = k ∧ (∀ p ∈ ps, Item p.1 p.2)
        ∧ flat ps <+: (s.bytes mem).drop n) :
    Decodes mem s ((s.tail n).bind fun t => container dec t k n) := by
  have hn := head_size hh
  rw [Slice.length_bytes] at hn
  obtain ⟨t, ht, htp, htl, htb⟩ := Slice.tail_ok hn.2
  rw [ht]
  show Decodes mem s (container dec t k n)
  unfold container
  have hskip := skipItems_spec hdec (s := t) (by omega) k 0 (Nat.zero_le _)
  rw [htb mem] at hskip
  rcases hskip with ⟨ps, hps, hlen, hitems, hflat⟩ | ⟨e, he, hno⟩
  · rw [List.drop_zero] at hflat
    obtain ⟨d, hd, hshows⟩ := hbuild ps hlen hitems
    have htake : ((s.bytes mem).take n).length = n := by
      rw [List.length_take, Slice.length_bytes, Nat.min_eq_left hn.2]
    have hfits : n + (flat ps).length ≤ s.len := by
      have := hflat.length_le
      rw [List.length_drop, Slice.length_bytes] at this
      omega
    rw [hps, Nat.zero_add]
    show Decodes mem s ((addWord n (flat ps).length).bind _)
    rw [addWord_eq (by have := s.fits; omega)]
    refine .inl ⟨_, d, (s.bytes mem).take n ++ flat ps, rfl,
      hd, take_append_prefix hflat, ?_, hshows _⟩
    rw [List.length_append, htake]
  · rw [he]
    refine .inr ⟨e, rfl, fun d raw hd hp => ?_⟩
    obtain ⟨ps, hlen, hps, hflat⟩ := hitem d raw hd hp
    exact hno ps hlen hps hflat

/-- What follows a head is what it announced. -/
theorem afterHead_spec (hN : s.len ≤ N + 1) (hh : head (s.bytes mem) = some (x, n)) :
    Decodes mem s (afterHead dec s n x) := by
  have hn := head_size hh
  have hhead := head_take hh
  cases x with
  | scalar d =>
    refine .inl ⟨_, d, (s.bytes mem).take n, rfl, .scalar hhead, List.take_prefix _ _, ?_, ?_⟩
    · rw [List.length_take, Nat.min_eq_left hn.2]
    · have hplain := (head_plain hh).2
      cases d with
      | nil => exact .nil
      | bool b => exact .bool b
      | uint k => exact .uint k
      | int i => exact .int i
      | str _ => exact hplain.elim
      | array _ => exact hplain.elim
      | map _ => exact hplain.elim
  | str len => exact stringAt_spec hh
  | array count =>
    refine container_spec hdec hN hh (k := count) ?_ ?_
    · rintro ps rfl hps
      exact ⟨_, .array hhead hps, fun stop => .array _⟩
    · intro d raw hitem hp
      obtain ⟨body, -, hbody, ps, hlen, hps, -, rfl⟩ := hitem.behind hh hp
      exact ⟨ps, hlen, hps, hbody⟩
  | map count =>
    refine container_spec hdec hN hh (k := 2 * count) ?_ ?_
    · intro ps hlen hps
      obtain ⟨es, rfl, rfl⟩ := exists_turns hlen
      exact ⟨_, .map hhead hps, fun stop => .map _⟩
    · intro d raw hitem hp
      obtain ⟨body, -, hbody, es, rfl, hes, -, rfl⟩ := hitem.behind hh hp
      exact ⟨_, length_turns es, hes, hbody⟩

omit hdec

/-- A call of `decode` is right about the start of its slice. -/
theorem decodeWithin_spec (mem : Mem) (fuel : Nat) :
    ∀ s : Slice, s.len ≤ fuel → Decodes mem s (decodeWithin mem fuel s) := by
  induction fuel with
  | zero =>
    intro s hs
    refine .inr ⟨_, rfl, no_item_of_head ?_⟩
    have hnil : s.bytes mem = [] :=
      List.eq_nil_of_length_eq_zero (by rw [Slice.length_bytes]; omega)
    rw [hnil]
    rfl
  | succ fuel ih =>
    intro s hs
    cases hb : s.bytes mem with
    | nil =>
      have hlen : s.len = 0 := by rw [← Slice.length_bytes mem, hb]; rfl
      rw [decodeWithin, decodeBy, if_pos hlen]
      refine .inr ⟨_, rfl, no_item_of_head ?_⟩
      rw [hb]
      rfl
    | cons tag rest =>
      have hlen := len_of_bytes hb
      rw [decodeWithin, decodeBy_form hb]
      cases hf : form tag with
      | none =>
        refine .inr ⟨_, rfl, no_item_of_head ?_⟩
        rw [hb, head, hf]
        rfl
      | some f =>
        show Decodes mem s (if s.len < 1 + f.1 then _ else _)
        have hhead : head (s.bytes mem)
            = if f.1 ≤ rest.length
              then some (f.2 (beNat (rest.take f.1)), 1 + f.1) else none := by
          rw [hb, head, hf]
          rfl
        split
        · next hshort =>
          rw [if_neg (by omega)] at hhead
          exact .inr ⟨_, rfl, no_item_of_head hhead⟩
        · next hlong =>
          rw [if_pos (by omega)] at hhead
          exact afterHead_spec ih hs hhead

/-- No byte string makes the decoder trap, and what it reports is an
item at the start of the slice. -/
theorem decode_sound (mem : Mem) (s : Slice) :
    (∃ r d raw, decode mem s = .ok (.ok r) ∧ Reads mem s r d raw)
      ∨ ∃ e, decode mem s = .ok (.error e) := by
  rcases decodeWithin_spec mem s.len s (Nat.le_refl _) with h | ⟨e, he, -⟩
  · exact .inl h
  · exact .inr ⟨e, he⟩

/-- An item at the start of the slice is reported, whatever follows
it. -/
theorem decode_complete (hitem : Item d raw)
    (hp : raw <+: s.bytes mem) : ∃ r, decode mem s = .ok (.ok r) ∧ Reads mem s r d raw := by
  rcases decodeWithin_spec mem s.len s (Nat.le_refl _) with ⟨r, d', raw', hr, hreads⟩ | ⟨e, -, hno⟩
  · obtain ⟨rfl, rfl⟩ := item_unique hitem hreads.item hp hreads.start
    exact ⟨r, hr, hreads⟩
  · exact absurd hp (hno d raw hitem)

end Spec

-- ==== lookups

/-- The slice that a lookup may return: the value of the entry. -/
def Located (mem : Mem) (t : Slice) (ptr : Nat) (raw : List UInt8) : Prop :=
  t.ptr = ptr ∧ t.bytes mem = raw

/-- What the loop of `lookupMapString` may answer, with `n` entries to
go. -/
def Finds (mem : Mem) (s : Slice) (key : List UInt8) (n offset : Nat)
    (out : Checked (Option Slice)) : Prop :=
  (∃ t off d raw, out = .ok (some t)
      ∧ EntryIn key n ((s.bytes mem).drop offset) off d raw
      ∧ Located mem t (s.ptr + offset + off) raw)
    ∨ (out = .ok none
      ∧ ∀ off d raw, ¬ EntryIn key n ((s.bytes mem).drop offset) off d raw)

/-- What `lookupMapString` may answer: the first entry under the key, or
that there is none. It never traps. -/
def Answers (mem : Mem) (s : Slice) (key : List UInt8) (out : Checked (Option Slice)) : Prop :=
  (∃ t off d raw, out = .ok (some t) ∧ Entry key (s.bytes mem) off d raw
      ∧ Located mem t (s.ptr + off) raw)
    ∨ (out = .ok none ∧ ∀ off d raw, ¬ Entry key (s.bytes mem) off d raw)

section Lookup

variable {mem : Mem} {s : Slice} {key : List UInt8}

theorem Shows.isString {stop : Nat} {v : Value}
    (h : Shows mem stop v d) : v.isString mem key = true ↔ d = .str key := by
  cases h with
  | nil => simp [Value.isString]
  | bool b => simp [Value.isString]
  | uint n => simp [Value.isString]
  | int i => simp [Value.isString]
  | str t _ => simp [Value.isString]
  | array xs => simp [Value.isString]
  | map es => simp [Value.isString]

theorem Located.unique {mem mem' : Mem} {t t' : Slice} {ptr : Nat}
    (h : Located mem t ptr raw) (h' : Located mem' t' ptr raw) : t = t' := by
  have hlen : t.len = t'.len := by
    rw [← Slice.length_bytes mem, h.2, ← h'.2, Slice.length_bytes]
  have hptr : t.ptr = t'.ptr := h.1.trans h'.1.symm
  cases t
  cases t'
  cases hlen
  cases hptr
  rfl

/-- A string is reported for a string and for nothing else. -/
theorem Shows.string_or {stop : Nat} {v : Value} (h : Shows mem stop v d) :
    (∃ u, v = .string u ∧ d = .str (u.bytes mem))
      ∨ ((∀ u, v ≠ .string u) ∧ ∀ text, d ≠ .str text) := by
  cases h with
  | str u _ => exact .inl ⟨u, rfl, rfl⟩
  | nil => exact .inr ⟨by simp, by simp⟩
  | bool b => exact .inr ⟨by simp, by simp⟩
  | uint n => exact .inr ⟨by simp, by simp⟩
  | int i => exact .inr ⟨by simp, by simp⟩
  | array xs => exact .inr ⟨by simp, by simp⟩
  | map es => exact .inr ⟨by simp, by simp⟩

theorem Shows.located {ptr off : Nat} {u : Slice}
    (h : Shows mem (ptr + off + raw.length) (.string u) d) (hitem : Item d raw) :
    d = .str (u.bytes mem)
      ∧ Located mem u (ptr + (off + (raw.length - (u.bytes mem).length))) (u.bytes mem) := by
  cases h with
  | str _ hstop =>
    have hlen := hitem.length_str
    rw [Slice.length_bytes] at hlen
    refine ⟨rfl, ?_, rfl⟩
    rw [Slice.length_bytes]
    omega

/-- The loop of `lookupMapString` finds the first entry under its
key. -/
theorem lookupLoop_spec (n offset : Nat) (ho : offset ≤ s.len) :
    Finds mem s key n offset (lookupLoop mem (decode mem) s key n offset) := by
  have hdec : ∀ t : Slice, t.len ≤ s.len → Decodes mem t (decode mem t) :=
    fun t _ => decodeWithin_spec mem t.len t (Nat.le_refl _)
  induction n generalizing offset with
  | zero =>
    refine .inr ⟨rfl, fun off d raw h => ?_⟩
    cases h
  | succ n ih =>
    obtain ⟨t, ht, hout⟩ := decode_at hdec (Nat.le_refl _) ho
    unfold lookupLoop
    rw [ht]
    show Finds _ _ _ _ _ ((decode mem t).bind _)
    rcases hout with ⟨r, k, kb, hr, hkey⟩ | ⟨e, he, hno⟩
    · rw [hr]
      show Finds _ _ _ _ _ ((addWord offset r.consumed).bind _)
      rw [hkey.stop]
      obtain ⟨u, hu, hout⟩ := decode_at hdec (Nat.le_refl _) hkey.inside
      show Finds _ _ _ _ _ ((s.tail (offset + kb.length)).bind _)
      rw [hu]
      show Finds _ _ _ _ _ ((decode mem u).bind _)
      rcases hout with ⟨r', v, vb, hr', hval⟩ | ⟨e, he, hno⟩
      · have hvp := hval.start
        rw [← List.drop_drop] at hvp
        rw [hr']
        show Finds _ _ _ _ _
          ((addWord (offset + kb.length) r'.consumed).bind _)
        rw [hval.stop]
        show Finds _ _ _ _ _ (if r.value.isString mem key then _ else _)
        split
        -- the key is found: its value is the answer
        · next hstr =>
          obtain ⟨w, hw, hwp, hwl, hwb⟩ := Slice.sub_ok
            (Nat.le_add_right (offset + kb.length) vb.length) hval.inside
          rw [hw]
          refine .inl ⟨w, kb.length, v, vb, rfl, ?_, ?_, ?_⟩
          · exact (entryIn_succ hkey.item hkey.start hval.item hvp).2
              (.inl ⟨hkey.shows.isString.1 hstr, rfl, rfl, rfl⟩)
          · rw [hwp, Nat.add_assoc]
          · obtain ⟨rest, hrest⟩ := hval.start
            rw [hwb, ← hrest, Nat.add_sub_cancel_left, List.take_left]
        · next hstr =>
          have hne : k ≠ .str key := fun h => hstr (hkey.shows.isString.2 h)
          rcases ih (offset + kb.length + vb.length) hval.inside with
            ⟨w, off, d, raw, hw, hentry, hp, hb⟩ | ⟨hw, hno⟩
          · rw [Nat.add_assoc, ← List.drop_drop] at hentry
            refine .inl ⟨w, _, d, raw, hw, (entryIn_succ hkey.item hkey.start hval.item hvp).2
                (.inr ⟨hne, off, rfl, hentry⟩), ?_, hb⟩
            rw [hp]
            omega
          · refine .inr ⟨hw, fun off d raw h => ?_⟩
            obtain ⟨hk, -⟩ | ⟨-, off', -, h⟩ :=
              (entryIn_succ hkey.item hkey.start hval.item hvp).1 h
            · exact hne hk
            · rw [List.drop_drop, ← Nat.add_assoc] at h
              exact hno off' d raw h
      -- no value behind the key, so no entry of any key
      · rw [he]
        refine .inr ⟨rfl, fun off d raw h => ?_⟩
        obtain ⟨k', kb', v, vb, hk, hkp, hv, hvp⟩ := h.items
        obtain ⟨-, rfl⟩ := item_unique hkey.item hk hkey.start hkp
        rw [List.drop_drop] at hvp
        exact hno v vb hv hvp
    · rw [he]
      refine .inr ⟨rfl, fun off d raw h => ?_⟩
      obtain ⟨k, kb, -, -, hk, hkp, -⟩ := h.items
      exact hno k kb hk hkp

/-- A lookup once the head of the map is read. -/
private theorem lookup_of_head {count : Nat} (hh : head (s.bytes mem) = some (.map count, n)) :
    Answers mem s key (lookupLoop mem (decode mem) s key count n) := by
  have hn := head_size hh
  rw [Slice.length_bytes] at hn
  have hloop : Finds mem s key count n _ := lookupLoop_spec count n hn.2
  rcases hloop with ⟨t, off, d, raw, ht, hentry, hp, hb⟩ | ⟨ht, hno⟩
  · exact .inl ⟨t, n + off, d, raw, ht, .intro hh hentry, hp.trans (Nat.add_assoc _ _ _), hb⟩
  · refine .inr ⟨ht, fun off d raw h => ?_⟩
    cases h with
    | intro hh' h =>
      rw [hh] at hh'
      injection hh' with hh'
      injection hh' with hx hn
      injection hx with hx
      subst hx hn
      exact hno _ d raw h

/-- Where the bytes do not begin with a map, there is no entry. -/
private theorem no_entry (h : ∀ count n, head (s.bytes mem) ≠ some (.map count, n))
    (off : Nat) (d : Datum) (raw : List UInt8) : ¬ Entry key (s.bytes mem) off d raw := by
  intro hentry
  cases hentry with
  | intro hh _ => exact h _ _ hh

/-- `lookupMapString` is right about the map at the start of its
slice. -/
theorem lookup_spec (mem : Mem) (s : Slice) (key : List UInt8) :
    Answers mem s key (lookupMapString mem s key) := by
  cases hb : s.bytes mem with
  | nil =>
    have hlen : s.len = 0 := by rw [← Slice.length_bytes mem, hb]; rfl
    refine .inr ⟨if_pos hlen, no_entry fun count n h => ?_⟩
    rw [hb] at h
    cases h
  | cons tag rest =>
    have hlen := len_of_bytes hb
    have hand : tag.toNat &&& 15 = tag.toNat % 16 :=
      Nat.and_two_pow_sub_one_eq_mod _ 4
    have hde : tag = 0xde ↔ tag.toNat = 0xde :=
      ⟨fun h => by rw [h]; rfl, fun h => UInt8.toNat_inj.1 h⟩
    unfold lookupMapString
    rw [if_neg (by omega), Slice.get_zero hb]
    show Answers mem s key (if tag ≥ 0x80 ∧ tag ≤ 0x8f then _ else _)
    simp only [ge_iff_le, UInt8.le_iff_toNat_le, UInt8.toNat_and, UInt8.reduceToNat]
    split
    · next hfix =>
      rw [show tag.toNat &&& 15 = tag.toNat - 0x80 by omega]
      apply lookup_of_head
      rw [hb, head, form_fixmap hfix.1 (by omega)]
      rfl
    · next hfix =>
      split
      · next htag =>
        subst htag
        have hform : form 0xde = some (2, fun n => .map n) := rfl
        split
        -- the count is cut off, and with it every entry
        · next hshort =>
          refine .inr ⟨rfl, no_entry fun count n h => ?_⟩
          rw [hb, head, hform, Option.bind_some, if_neg (by dsimp only; omega)] at h
          cases h
        · next hlong =>
          obtain ⟨c, hc, -, -, hcb⟩ := Slice.sub_ok (s := s) (a := 1) (b := 3)
            (by omega) (by omega)
          rw [hc]
          apply lookup_of_head
          rw [hb, head, hform, Option.bind_some, if_pos (by dsimp only; omega),
            hcb, hb, List.drop_one, List.tail_cons]
          rfl
      · next htag =>
        refine .inr ⟨rfl, no_entry fun count n h => ?_⟩
        rw [hb] at h
        obtain hmap | hmap := head_map h
        · omega
        · exact htag (hde.2 hmap)

/-- The first entry under a key is found. -/
theorem lookup_complete {off : Nat} (h : Entry key (s.bytes mem) off d raw) :
    ∃ t, lookupMapString mem s key = .ok (some t)
      ∧ Located mem t (s.ptr + off) raw := by
  rcases lookup_spec mem s key with ⟨t, off', d', raw', ht, hentry, hloc⟩ | hbad
  · obtain ⟨rfl, rfl, rfl⟩ := h.unique hentry
    exact ⟨t, ht, hloc⟩
  · exact absurd h (hbad.2 off d raw)

end Lookup

end Dynamod.Init.Msgpack
