/-
Lookups in a map that follows the format.

A map is its header, a row of keys and values that decode, and whatever
stands behind it. `lookupMapString_exact` says what the lookup answers:
the bytes of the value under the first key that is the string, where they
stand, and nothing if no key is. It reads no more of the others than the
decoder needs to get past them.

That bytes decode is said with the decoder itself (`Whole`, `IsText`).
What it accepts are the items of the grammar (`Whole.item`), and items are
a prefix code, so the answer does not depend on where the bytes stand or
on what follows them.
-/
import Dynamod.Lib.MessagePack.Encoder
import Dynamod.Init.Proofs.Msgpack

namespace Dynamod.Init.Msgpack

open Lib MessagePack

/-- The bytes decode, and the decoder consumes them all. -/
def Whole (raw : List UInt8) : Prop :=
  ∃ (mem : Mem) (s : Slice) (r : DecodeResult),
    s.bytes mem = raw ∧ decode mem s = .ok (.ok r) ∧ r.consumed = raw.length

/-- The bytes decode to this string. -/
def IsText (raw text : List UInt8) : Prop :=
  ∃ (mem : Mem) (s : Slice) (r : DecodeResult),
    s.bytes mem = raw ∧ decode mem s = .ok (.ok r) ∧ r.consumed = raw.length
      ∧ r.value.isString mem text = true

structure RawEntry where
  key : List UInt8
  value : List UInt8
  key_decodes : Whole key
  value_decodes : Whole value

/-- The entries of a map, one behind the other. -/
def rawEntries (entries : List RawEntry) : List UInt8 :=
  rows (entries.map fun e => (e.key, e.value))

/-- The header of a map with `n` entries. -/
inductive MapHeader (n : Nat) : List UInt8 → Prop
  | fixmap : n < 16 → MapHeader n [0x80 ||| UInt8.ofNat n]
  | map16 : n < 65536 → MapHeader n (0xde :: toBE 2 n)

-- ==== what decodes

section Decoding

variable {raw text : List UInt8}

/-- What the decoder consumes is an item. -/
theorem Whole.item (h : Whole raw) : ∃ d, Item d raw := by
  obtain ⟨mem, s, r, rfl, hr, hall⟩ := h
  rcases decode_sound mem s with ⟨r', d, raw', hr', hreads⟩ | ⟨e, he⟩
  · cases hr.symm.trans hr'
    have hwhole : raw' = s.bytes mem :=
      hreads.start.eq_of_length (hreads.consumed.symm.trans hall)
    exact ⟨d, hwhole ▸ hreads.item⟩
  · cases hr.symm.trans he

/-- The decoder reads a string where there is one. -/
theorem Whole.isText_iff (h : Whole raw) : IsText raw text ↔ Item (.str text) raw := by
  constructor
  · rintro ⟨mem, s, r, rfl, hr, -, htext⟩
    obtain ⟨d, hitem⟩ := h.item
    obtain ⟨r', hr', hreads⟩ := decode_complete hitem (List.prefix_refl _)
    cases hr.symm.trans hr'
    rw [← hreads.shows.isString.1 htext]
    exact hitem
  · intro hitem
    obtain ⟨mem, s, r, rfl, hr, hall⟩ := h
    obtain ⟨r', hr', hreads⟩ := decode_complete hitem (List.prefix_refl _)
    cases hr.symm.trans hr'
    exact ⟨mem, s, r, rfl, hr, hall, hreads.shows.isString.2 rfl⟩

theorem IsText.whole (h : IsText raw text) : Whole raw := by
  obtain ⟨mem, s, r, hraw, hr, hall, -⟩ := h
  exact ⟨mem, s, r, hraw, hr, hall⟩

theorem RawEntry.otherKey (e : RawEntry) (h : ¬ IsText e.key text) :
    OtherKey text (e.key, e.value) := by
  obtain ⟨k, hk⟩ := e.key_decodes.item
  obtain ⟨v, hv⟩ := e.value_decodes.item
  refine ⟨k, v, hk, hv, ?_⟩
  rintro rfl
  exact h (e.key_decodes.isText_iff.2 hk)

theorem MapHeader.head {n : Nat} {header : List UInt8} (h : MapHeader n header) :
    MessagePack.head header = some (.map n, header.length) := by
  cases h with
  | fixmap hn =>
    have htag : ((0x80 : UInt8) ||| UInt8.ofNat n).toNat = 0x80 + n := by
      rw [UInt8.toNat_or, UInt8.toNat_ofNat', Nat.mod_eq_of_lt (by omega)]
      exact (Nat.two_pow_add_eq_or_of_lt (by omega : n < 2 ^ 7) 1).symm
    refine head_tag ((form_fixmap (by omega) (by omega)).trans ?_)
    rw [htag, Nat.add_sub_cancel_left]
  | map16 hn => exact head_field rfl hn

end Decoding

-- ==== the lookup

section Lookup

variable {mem : Mem} {s : Slice} {key header rest : List UInt8} {entries : List RawEntry}

/-- The entry under the first key that is the string is found. -/
theorem lookup_first (hheader : MapHeader entries.length header)
    (hbytes : s.bytes mem = header ++ (rawEntries entries ++ rest)) {before after : List RawEntry}
    {e : RawEntry} (hsplit : entries = before ++ e :: after) (htext : IsText e.key key)
    (hfirst : ∀ e' ∈ before, ¬ IsText e'.key key) : ∃ t, lookupMapString mem s key = .ok (some t)
      ∧ t.ptr = s.ptr + (header.length + ((rawEntries before).length + e.key.length))
      ∧ t.bytes mem = e.value := by
  obtain ⟨v, hv⟩ := e.value_decodes.item
  have hothers : ∀ x ∈ before.map fun e => (e.key, e.value), OtherKey key x := by
    intro x hx
    obtain ⟨e', he', rfl⟩ := List.mem_map.1 hx
    exact e'.otherKey (hfirst e' he')
  have hin := entryIn_rows hothers (e.key_decodes.isText_iff.1 htext) hv after.length
    (rawEntries after ++ rest)
  have hrow : rawEntries entries ++ rest
      = rawEntries before ++ (e.key ++ (e.value ++ (rawEntries after ++ rest))) := by
    rw [hsplit, rawEntries, List.map_append, rows, List.flatMap_append, List.append_assoc]
    exact congrArg _ (rows_cons ..)
  have hentry : EntryIn key entries.length ((s.bytes mem).drop header.length)
      ((rawEntries before).length + e.key.length) v e.value := by
    rw [hbytes, List.drop_left, hrow, hsplit, List.length_append]
    rw [List.length_map] at hin
    exact hin
  exact lookup_complete (.intro (hbytes ▸ head_append hheader.head _) hentry)

/-- If no key is the string, nothing is found. -/
theorem lookup_none (hheader : MapHeader entries.length header)
    (hbytes : s.bytes mem = header ++ (rawEntries entries ++ rest))
    (hno : ∀ e ∈ entries, ¬ IsText e.key key) : lookupMapString mem s key = .ok none := by
  rcases lookup_spec mem s key with ⟨t, off, d, raw, -, hentry, -⟩ | ⟨hnone, -⟩
  · exfalso
    have hhead := head_append hheader.head (rawEntries entries ++ rest)
    cases hentry with
    | intro hh hin =>
      rw [hbytes, hhead] at hh
      cases hh
      rw [hbytes, List.drop_left, ← List.length_map (f := fun e => (e.key, e.value))] at hin
      refine no_entryIn_rows (fun x hx => ?_) rest hin
      obtain ⟨e, he, rfl⟩ := List.mem_map.1 hx
      exact e.otherKey (hno e he)
  · exact hnone

/-- In every map of up to 65535 entries, whatever follows it, the lookup
answers nothing exactly if no key is the string, and otherwise the bytes
of the value under the first key that is. -/
theorem lookupMapString_exact (hheader : MapHeader entries.length header)
    (hbytes : s.bytes mem = header ++ (rawEntries entries ++ rest)) :
    (lookupMapString mem s key = .ok none ↔ ∀ e ∈ entries, ¬ IsText e.key key)
      ∧ ∀ before e after, entries = before ++ e :: after → IsText e.key key →
        (∀ e' ∈ before, ¬ IsText e'.key key) → ∃ t, lookupMapString mem s key = .ok (some t)
          ∧ t.ptr = s.ptr + (header.length + ((rawEntries before).length + e.key.length))
          ∧ t.bytes mem = e.value := by
  refine ⟨⟨fun hnone => ?_, lookup_none hheader hbytes⟩,
    fun before e after => lookup_first hheader hbytes⟩
  classical
  cases hfind : entries.find? fun e => IsText e.key key with
  | none => simpa using hfind
  | some e =>
    obtain ⟨htext, before, after, hsplit, hfirst⟩ := List.find?_eq_some_iff_append.1 hfind
    obtain ⟨t, ht, -⟩ := lookup_first hheader hbytes hsplit (of_decide_eq_true htext)
      fun e' he' => by simpa using hfirst e' he'
    cases hnone.symm.trans ht

end Lookup

-- ==== a map

/-- Memory that begins with these bytes. -/
def memOf (bytes : List UInt8) : Mem := store (fun _ => 0) 0 bytes

/-- `decode` of the string `k`. -/
private theorem text_decodes : IsText [0xa1, 0x6b] [0x6b] :=
  ⟨memOf [0xa1, 0x6b], ⟨0, 2, by decide⟩, ⟨.string ⟨1, 1, by decide⟩, 2⟩, by decide, rfl, rfl,
    by decide⟩

/-- The string `k` under the number 1. -/
def numberEntry : RawEntry where
  key := [0x01]
  value := [0xa1, 0x6b]
  key_decodes := ⟨memOf [0x01], ⟨0, 1, by decide⟩, ⟨.uint 1, 1⟩, by decide, rfl, rfl⟩
  value_decodes := text_decodes.whole

/-- The number 7 under the string `k`. -/
def textEntry : RawEntry where
  key := [0xa1, 0x6b]
  value := [0x07]
  key_decodes := text_decodes.whole
  value_decodes := ⟨memOf [0x07], ⟨0, 1, by decide⟩, ⟨.uint 7, 1⟩, by decide, rfl, rfl⟩

/-- A map of the two entries, and a byte behind it. -/
def mixedMap : List UInt8 := [0x82, 0x01, 0xa1, 0x6b, 0xa1, 0x6b, 0x07, 0xff]

/-- The value that looks like the key is passed. -/
theorem mixedMap_found :
    ∃ t, lookupMapString (memOf mixedMap) ⟨0, 8, by decide⟩ [0x6b] = .ok (some t)
      ∧ t.ptr = 6 ∧ t.bytes (memOf mixedMap) = [0x07] := by
  have hheader : MapHeader [numberEntry, textEntry].length [0x82] := .fixmap (by decide)
  have hbytes : Slice.bytes (memOf mixedMap) ⟨0, 8, by decide⟩
      = [0x82] ++ (rawEntries [numberEntry, textEntry] ++ [0xff]) := by decide
  refine (lookupMapString_exact hheader hbytes).2 [numberEntry] textEntry [] rfl text_decodes ?_
  intro e he htext
  rw [List.mem_singleton.1 he] at htext
  have htexts := numberEntry.key_decodes.isText_iff.1 htext
  have hnumber : Item (.uint 1) numberEntry.key := .scalar rfl
  cases (item_unique hnumber htexts (List.prefix_refl _) (List.prefix_refl _)).1

end Dynamod.Init.Msgpack
