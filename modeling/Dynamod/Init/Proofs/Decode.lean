/-
What a call of `decode` depends on.

`skipCalls` lists the calls that step over the elements of a container;
the outcome depends on the answers to these calls and on nothing else
(`skipItems_congr`). They are made on shorter slices, so the length of the
slice is fuel enough (`decodeWithin_of_le`), and `decode` is described by
its own answers for the elements (`decode_elements`).

What it reports depends on the item at the start of the slice alone, by
`decode_sound` and `decode_complete`.
-/
import Mathlib.Algebra.GroupWithZero.Nat
import Dynamod.Init.Proofs.Msgpack

namespace Dynamod.Init.Msgpack

open Lib MessagePack

variable {t : Slice} {x : Head} {n k : Nat}

variable {mem : Mem} {s : Slice} {dec dec' : Slice → Checked Decoded}

-- ==== the calls

/-- A call on the rest of the slice, and what comes behind its answer. -/
def callAt (dec : Slice → Checked Decoded) (s : Slice) (offset : Nat)
    (next : DecodeResult → Nat → List Slice) : List Slice :=
  match s.tail offset with
  | .error _ => []
  | .ok t =>
    t :: match dec t with
      | .ok (.ok r) =>
        match addWord offset r.consumed with
        | .ok stop => next r stop
        | .error _ => []
      | _ => []

/-- The calls of `skipItems`. -/
def skipCalls (dec : Slice → Checked Decoded) (s : Slice) : Nat → Nat → List Slice
  | 0, _ => []
  | n + 1, offset => callAt dec s offset fun _ stop => skipCalls dec s n stop

theorem tail_len {a : Nat} (h : s.tail a = .ok t) : t.len + a = s.len := by
  unfold Slice.tail Slice.sub at h
  split at h
  · next hle =>
    cases h
    exact Nat.sub_add_cancel hle.1
  · cases h

/-- The outcome depends on the answers to the calls. -/
theorem skipItems_congr (n : Nat) : ∀ {offset : Nat},
    (∀ t ∈ skipCalls dec s n offset, dec t = dec' t) →
      skipItems dec s n offset = skipItems dec' s n offset := by
  induction n with
  | zero => exact fun _ => rfl
  | succ n ih =>
    intro offset h
    unfold skipCalls callAt at h
    unfold skipItems
    cases htail : s.tail offset with
    | error e => rfl
    | ok t =>
      rw [htail] at h
      dsimp only at h
      have hfirst : dec t = dec' t := h t List.mem_cons_self
      show (dec t).bind _ = (dec' t).bind _
      rw [← hfirst]
      cases hdec : dec t with
      | error e => rfl
      | ok out =>
        cases out with
        | error e => rfl
        | ok r =>
          rw [hdec] at h
          dsimp only at h
          show (addWord offset r.consumed).bind _ = (addWord offset r.consumed).bind _
          cases hstop : addWord offset r.consumed with
          | error e => rfl
          | ok stop =>
            rw [hstop] at h
            exact ih fun t ht => h t (List.mem_cons_of_mem _ ht)

/-- A call is made on a part of the slice. -/
theorem len_of_mem_callAt {offset : Nat}
    {next : DecodeResult → Nat → List Slice} (h : t ∈ callAt dec s offset next) :
    t.len + offset = s.len
      ∨ ∃ r stop, addWord offset r.consumed = .ok stop ∧ t ∈ next r stop := by
  unfold callAt at h
  cases htail : s.tail offset with
  | error e =>
    rw [htail] at h
    cases h
  | ok u =>
    rw [htail] at h
    rcases List.mem_cons.1 h with rfl | h
    · exact .inl (tail_len htail)
    · right
      split at h
      · split at h
        · next stop hstop => exact ⟨_, stop, hstop, h⟩
        · cases h
      · cases h

theorem len_of_mem_skipCalls (n : Nat) : ∀ {offset : Nat},
    t ∈ skipCalls dec s n offset → t.len ≤ s.len := by
  induction n with
  | zero =>
    intro offset h
    cases h
  | succ n ih =>
    intro offset h
    rcases len_of_mem_callAt h with hlen | ⟨r, stop, -, hrest⟩
    · omega
    · exact ih hrest

-- ==== the fuel

/-- How many items stand in a container that a head announces. -/
def elements : Head → Option Nat
  | .array count => some count
  | .map count => some (2 * count)
  | _ => none

/-- `decode` on a container steps over its elements. -/
theorem afterHead_elements (h : elements x = some k) :
    afterHead dec s n x = (s.tail n).bind fun t => container dec t k n := by
  cases x with
  | scalar d => cases h
  | str len => cases h
  | array count =>
    cases h
    rfl
  | map count =>
    cases h
    rfl

theorem afterHead_of_no_elements (n : Nat) (h : elements x = none) :
    afterHead dec s n x = afterHead dec' s n x := by
  cases x with
  | scalar d => rfl
  | str len => rfl
  | array count => cases h
  | map count => cases h

theorem container_congr (h : ∀ u ∈ skipCalls dec t k 0, dec u = dec' u) :
    container dec t k n = container dec' t k n := by
  unfold container
  rw [skipItems_congr k h]

theorem afterHead_congr (hn : 1 ≤ n) (h : ∀ t : Slice, t.len < s.len → dec t = dec' t) :
    afterHead dec s n x = afterHead dec' s n x := by
  cases hx : elements x with
  | none => exact afterHead_of_no_elements n hx
  | some k =>
    rw [afterHead_elements hx, afterHead_elements hx]
    cases htail : s.tail n with
    | error e => rfl
    | ok t =>
      have hlen := tail_len htail
      refine container_congr fun u hu => h u ?_
      have hle := len_of_mem_skipCalls k hu
      omega

/-- One call, from the head at the start of the slice. -/
theorem decodeBy_head (hh : head (s.bytes mem) = some (x, n))
    (dec : Slice → Checked Decoded) : decodeBy mem dec s = afterHead dec s n x := by
  cases hb : s.bytes mem with
  | nil =>
    rw [hb] at hh
    cases hh
  | cons tag rest =>
    have hlen := len_of_bytes hb
    rw [hb] at hh
    obtain ⟨f, hf, hh⟩ := Option.bind_eq_some_iff.1 hh
    split at hh
    · next hk =>
      cases hh
      rw [decodeBy_form hb, hf]
      exact if_neg (by omega)
    · cases hh

/-- Without a head the answer needs no call. -/
theorem decodeBy_no_head (hh : head (s.bytes mem) = none)
    (dec dec' : Slice → Checked Decoded) : decodeBy mem dec s = decodeBy mem dec' s := by
  cases hb : s.bytes mem with
  | nil =>
    have hlen : s.len = 0 := by rw [← Slice.length_bytes mem, hb]; rfl
    rw [decodeBy, if_pos hlen, decodeBy, if_pos hlen]
  | cons tag rest =>
    have hlen := len_of_bytes hb
    rw [decodeBy_form hb, decodeBy_form hb]
    cases hf : form tag with
    | none => rfl
    | some f =>
      have hshort : ¬ f.1 ≤ rest.length := by
        intro hk
        rw [hb, head, hf] at hh
        have hsome : some (f.2 (beNat (rest.take f.1)), 1 + f.1) = none :=
          (if_pos hk).symm.trans hh
        cases hsome
      exact (if_pos (by omega)).trans (if_pos (by omega)).symm

theorem decodeWithin_succ (mem : Mem) (fuel : Nat) : ∀ s : Slice, s.len ≤ fuel →
    decodeWithin mem (fuel + 1) s = decodeWithin mem fuel s := by
  induction fuel with
  | zero =>
    intro s hs
    exact if_pos (Nat.le_zero.1 hs)
  | succ fuel ih =>
    intro s hs
    cases hh : head (s.bytes mem) with
    | none => exact decodeBy_no_head hh _ _
    | some p =>
      rw [decodeWithin, decodeWithin, decodeBy_head hh, decodeBy_head hh]
      exact afterHead_congr (head_size hh).1 fun t ht => ih t (by omega)

/-- The length of the slice is fuel enough. -/
theorem decodeWithin_of_le (mem : Mem) {fuel : Nat} (h : s.len ≤ fuel) :
    decodeWithin mem fuel s = decode mem s := by
  obtain ⟨more, rfl⟩ := Nat.exists_eq_add_of_le h
  induction more with
  | zero => rfl
  | succ more ih =>
    have hle := Nat.le_add_right s.len more
    exact (decodeWithin_succ mem _ s hle).trans (ih hle)

/-- `decode` makes its nested calls itself. -/
theorem decode_eq_decodeBy (mem : Mem) (s : Slice) :
    decode mem s = decodeBy mem (decode mem) s := by
  rw [← decodeWithin_of_le mem (Nat.le_succ s.len), decodeWithin]
  cases hh : head (s.bytes mem) with
  | none => exact decodeBy_no_head hh _ _
  | some p =>
    rw [decodeBy_head hh, decodeBy_head hh]
    exact afterHead_congr (head_size hh).1 fun t ht => decodeWithin_of_le mem (by omega)

-- ==== the elements

/-- Values that `decode` reports one behind the other, from an offset of the
slice to another. -/
inductive Row (mem : Mem) (s : Slice) : Nat → List DecodeResult → Nat → Prop
  | nil {offset : Nat} : Row mem s offset [] offset
  | cons {offset stop : Nat} {t : Slice} {r : DecodeResult} {rs : List DecodeResult} :
      s.tail offset = .ok t → decode mem t = .ok (.ok r) →
      Row mem s (offset + r.consumed) rs stop → Row mem s offset (r :: rs) stop

theorem Row.stop_eq {offset stop : Nat} {rs : List DecodeResult}
    (h : Row mem s offset rs stop) : stop = offset + (rs.map DecodeResult.consumed).sum := by
  induction h with
  | nil => rfl
  | cons _ _ _ ih => rw [ih, List.map_cons, List.sum_cons, Nat.add_assoc]

theorem addWord_ok {a b c : Nat} (h : addWord a b = .ok c) : c = a + b := by
  unfold addWord addWidth at h
  split at h
  · cases h
    rfl
  · cases h

theorem skipItems_row (n : Nat) :
    ∀ {offset stop : Nat}, skipItems (decode mem) s n offset = .ok (.ok stop) →
      ∃ rs, Row mem s offset rs stop ∧ rs.length = n := by
  induction n with
  | zero =>
    intro offset stop h
    cases h
    exact ⟨[], .nil, rfl⟩
  | succ n ih =>
    intro offset stop h
    obtain ⟨t, htail, h⟩ := Checked.bind_ok h
    obtain ⟨out, hout, h⟩ := Checked.bind_ok h
    cases out with
    | error e => cases h
    | ok r =>
      obtain ⟨next, hnext, h⟩ := Checked.bind_ok h
      obtain ⟨rs, hrs, hlen⟩ := ih h
      rw [addWord_ok hnext] at hrs
      exact ⟨r :: rs, .cons htail hout hrs, congrArg (· + 1) hlen⟩

/-- A container is its header and its elements, as `decode` reports them. -/
theorem decode_elements {r : DecodeResult}
    (hh : head (s.bytes mem) = some (x, n)) (hx : elements x = some k)
    (h : decode mem s = .ok (.ok r)) :
    ∃ t rs stop, s.tail n = .ok t ∧ Row mem t 0 rs stop ∧ rs.length = k
      ∧ r.consumed = n + stop := by
  rw [decode_eq_decodeBy, decodeBy_head hh, afterHead_elements hx] at h
  obtain ⟨t, htail, h⟩ := Checked.bind_ok h
  obtain ⟨out, hout, h⟩ := Checked.bind_ok h
  cases out with
  | error e => cases h
  | ok stop =>
    obtain ⟨total, htotal, h⟩ := Checked.bind_ok h
    cases h
    obtain ⟨rs, hrs, hk⟩ := skipItems_row k hout
    exact ⟨t, rs, stop, htail, hrs, hk, addWord_ok htotal⟩

-- ==== what is reported

/-- The same kind of value with the same contents; a string is compared by
its bytes. -/
inductive SameValue (mem mem' : Mem) : Value → Value → Prop
  | nil : SameValue mem mem' .nil .nil
  | boolean (b : Bool) : SameValue mem mem' (.boolean b) (.boolean b)
  | uint (n : Nat) : SameValue mem mem' (.uint n) (.uint n)
  | int (i : Int) : SameValue mem mem' (.int i) (.int i)
  | string {t t' : Slice} : t.bytes mem = t'.bytes mem' →
      SameValue mem mem' (.string t) (.string t')

theorem Shows.sameValue {mem' : Mem} {stop stop' : Nat} {v v' : Value} {d : Datum}
    (h : Shows mem stop v d) (h' : Shows mem' stop' v' d) : SameValue mem mem' v v' := by
  generalize hd : d = d' at h'
  cases h with
  | nil => cases h' <;> first | exact .nil | cases hd
  | bool b =>
    cases h' <;> cases hd
    exact .boolean b
  | uint n =>
    cases h' <;> cases hd
    exact .uint n
  | int i =>
    cases h' <;> cases hd
    exact .int i
  | str t _ =>
    cases h' with
    | str t' _ => exact .string (Datum.str.inj hd)
    | _ => cases hd
  | array xs => cases h' <;> first | exact .nil | cases hd
  | map es => cases h' <;> first | exact .nil | cases hd

variable {r : DecodeResult} {d : Datum} {raw : List UInt8}

theorem decode_reads (h : decode mem s = .ok (.ok r)) : ∃ d raw, Reads mem s r d raw := by
  rcases decode_sound mem s with ⟨r', d, raw, hr', hreads⟩ | ⟨e, he⟩
  · cases h.symm.trans hr'
    exact ⟨d, raw, hreads⟩
  · cases h.symm.trans he

theorem Reads.consumed_bounds (h : Reads mem s r d raw) :
    1 ≤ r.consumed ∧ r.consumed ≤ s.len := by
  obtain ⟨x, n, hhead⟩ := h.item.head_some
  have hsize := head_size hhead
  have hlen := h.start.length_le
  rw [Slice.length_bytes] at hlen
  rw [h.consumed]
  omega

theorem Reads.string_inside (h : Reads mem s r d raw)
    (ht : r.value = .string t) : s.ptr ≤ t.ptr ∧ t.ptr + t.len = s.ptr + r.consumed := by
  have hshows := h.shows
  rw [ht] at hshows
  rw [h.consumed]
  cases hshows with
  | str _ hstop =>
    have hlen := h.item.length_str
    rw [Slice.length_bytes] at hlen
    exact ⟨by omega, hstop⟩

/-- The item is reported from any slice that begins with it. -/
theorem Reads.extend {mem' : Mem} {s' : Slice} (h : Reads mem s r d raw)
    (hbytes : s.bytes mem <+: s'.bytes mem') :
    ∃ r', decode mem' s' = .ok (.ok r') ∧ r'.consumed = r.consumed
      ∧ SameValue mem mem' r.value r'.value := by
  obtain ⟨r', hr', hreads⟩ := decode_complete h.item (h.start.trans hbytes)
  exact ⟨r', hr', hreads.consumed.trans h.consumed.symm, h.shows.sameValue hreads.shows⟩

/-- What holds of every successful call. -/
structure Contained (mem : Mem) (s : Slice) (r : DecodeResult) : Prop where
  consumed : 1 ≤ r.consumed ∧ r.consumed ≤ s.len
  string : ∀ t, r.value = .string t → s.ptr ≤ t.ptr ∧ t.ptr + t.len ≤ s.ptr + r.consumed
  stable : ∀ (mem' : Mem) (s' : Slice), s.bytes mem <+: s'.bytes mem' →
    ∃ r', decode mem' s' = .ok (.ok r') ∧ r'.consumed = r.consumed
      ∧ SameValue mem mem' r.value r'.value
  elements : ∀ x n k, head (s.bytes mem) = some (x, n) → elements x = some k →
    ∃ t rs stop, s.tail n = .ok t ∧ Row mem t 0 rs stop ∧ rs.length = k
      ∧ r.consumed = n + (rs.map DecodeResult.consumed).sum

/-- `decode` ends on every slice, within the nesting its length allows and
without a trap, and what it reports is contained in what it consumes. -/
theorem decode_terminates_contained (mem : Mem) (s : Slice) :
    (∀ fuel, s.len ≤ fuel → decodeWithin mem fuel s = decode mem s)
      ∧ (∃ out, decode mem s = .ok out)
      ∧ ∀ r, decode mem s = .ok (.ok r) → Contained mem s r := by
  refine ⟨fun fuel hfuel => decodeWithin_of_le mem hfuel, ?_, fun r h => ?_⟩
  · rcases decode_sound mem s with ⟨r, d, raw, hr, -⟩ | ⟨e, he⟩
    · exact ⟨_, hr⟩
    · exact ⟨_, he⟩
  · obtain ⟨d, raw, hreads⟩ := decode_reads h
    refine ⟨hreads.consumed_bounds, fun t ht => ?_, fun mem' s' => hreads.extend, ?_⟩
    · exact (hreads.string_inside ht).imp_right Nat.le_of_eq
    · intro x n k hh hx
      obtain ⟨t, rs, stop, htail, hrow, hk, hconsumed⟩ := decode_elements hh hx h
      refine ⟨t, rs, stop, htail, hrow, hk, ?_⟩
      rw [hconsumed, hrow.stop_eq, Nat.zero_add]

/-- An array of a number and a string, and a byte behind it. -/
def pairMem : Mem := store (fun _ => 0) 0 [0x92, 0x01, 0xa1, 0x41, 0xc1]

theorem pair_contained : decode pairMem ⟨0, 5, by decide⟩ = .ok (.ok ⟨.nil, 4⟩)
    ∧ Contained pairMem ⟨0, 5, by decide⟩ ⟨.nil, 4⟩ := by
  have h : decode pairMem ⟨0, 5, by decide⟩ = .ok (.ok ⟨.nil, 4⟩) := rfl
  exact ⟨h, (decode_terminates_contained pairMem ⟨0, 5, by decide⟩).2.2 _ h⟩

end Dynamod.Init.Msgpack
