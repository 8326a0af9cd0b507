/-
The MessagePack encoder that picks the smallest format everywhere.

`encode_item` connects it to the grammar: what it writes is an item,
for every value whose numbers and lengths have a format in the table
(`Fits`). A short encoding can only come from such a value
(`fits_of_length`). No other form of a number or a string is shorter
(`encodeUint_shortest`, `encode_str_shortest`). `entry_encode` and `no_entry_encode` say which
entries a lookup finds in a map that it wrote, and where.
-/
import Dynamod.Lib.MessagePack

namespace Dynamod.Lib.MessagePack

variable {k n : Nat} {es : List (Datum × Datum)}

/-- The smallest encoding of an unsigned integer. -/
def encodeUint (n : Nat) : List UInt8 :=
  if n < 2 ^ 7 then [UInt8.ofNat n]
  else if n < 2 ^ 8 then 0xcc :: toBE 1 n
  else if n < 2 ^ 16 then 0xcd :: toBE 2 n
  else if n < 2 ^ 32 then 0xce :: toBE 4 n
  else 0xcf :: toBE 8 n

/-- The smallest encoding of a negative integer. -/
def encodeInt (i : Int) : List UInt8 :=
  if -(2 ^ 5) ≤ i then toBE 1 (i + 2 ^ 8).toNat
  else if -(2 ^ 7) ≤ i then 0xd0 :: toBE 1 (i + 2 ^ 8).toNat
  else if -(2 ^ 15) ≤ i then 0xd1 :: toBE 2 (i + 2 ^ 16).toNat
  else if -(2 ^ 31) ≤ i then 0xd2 :: toBE 4 (i + 2 ^ 32).toNat
  else 0xd3 :: toBE 8 (i + 2 ^ 64).toNat

/-- The smallest head of a string. -/
def strHead (n : Nat) : List UInt8 :=
  if n < 2 ^ 5 then [UInt8.ofNat (0xa0 + n)]
  else if n < 2 ^ 8 then 0xd9 :: toBE 1 n
  else if n < 2 ^ 16 then 0xda :: toBE 2 n
  else 0xdb :: toBE 4 n

/-- The smallest head of an array. -/
def arrayHead (n : Nat) : List UInt8 :=
  if n < 2 ^ 4 then [UInt8.ofNat (0x90 + n)]
  else if n < 2 ^ 16 then 0xdc :: toBE 2 n
  else 0xdd :: toBE 4 n

/-- The smallest head of a map. -/
def mapHead (n : Nat) : List UInt8 :=
  if n < 2 ^ 4 then [UInt8.ofNat (0x80 + n)]
  else if n < 2 ^ 16 then 0xde :: toBE 2 n
  else 0xdf :: toBE 4 n

mutual

/-- The encoding that picks the smallest format everywhere. -/
def encode : Datum → List UInt8
  | .nil => [0xc0]
  | .bool b => [if b then 0xc3 else 0xc2]
  | .uint n => encodeUint n
  | .int i => encodeInt i
  | .str s => strHead s.length ++ s
  | .array xs => arrayHead xs.length ++ encodeAll xs
  | .map es => mapHead es.length ++ encodeEntries es

/-- The encodings of the elements of an array. -/
def encodeAll : List Datum → List UInt8
  | [] => []
  | x :: xs => encode x ++ encodeAll xs

/-- The encodings of the entries of a map. -/
def encodeEntries : List (Datum × Datum) → List UInt8
  | [] => []
  | e :: es => encodeEntry e ++ encodeEntries es

def encodeEntry : Datum × Datum → List UInt8
  | (k, v) => encode k ++ encode v

end

theorem encode_uint (n : Nat) : encode (.uint n) = encodeUint n := by rw [encode]

theorem encode_str (s : List UInt8) : encode (.str s) = strHead s.length ++ s := by
  rw [encode]

theorem encode_map (es : List (Datum × Datum)) :
    encode (.map es) = mapHead es.length ++ encodeEntries es := by
  rw [encode]

mutual

/-- Every number, length and count of the value has a format in the
table. -/
def Fits : Datum → Prop
  | .nil => True
  | .bool _ => True
  | .uint n => n < 2 ^ 64
  | .int i => -(2 ^ 63) ≤ i ∧ i < 0
  | .str s => s.length < 2 ^ 16
  | .array xs => xs.length < 2 ^ 16 ∧ FitsAll xs
  | .map es => es.length < 2 ^ 16 ∧ FitsEntries es

def FitsAll : List Datum → Prop
  | [] => True
  | x :: xs => Fits x ∧ FitsAll xs

def FitsEntries : List (Datum × Datum) → Prop
  | [] => True
  | e :: es => FitsEntry e ∧ FitsEntries es

def FitsEntry : Datum × Datum → Prop
  | (k, v) => Fits k ∧ Fits v

end

-- ---- the heads it writes

/-- A tag with a field of `k` bytes behind it. -/
theorem head_field {tag : UInt8} {announce : Nat → Head}
    (hform : form tag = some (k, announce)) (hn : n < 256 ^ k) :
    head (tag :: toBE k n) = some (announce n, (tag :: toBE k n).length) := by
  have hlen := length_toBE k n
  refine Option.bind_eq_some_iff.2 ⟨_, hform, ?_⟩
  rw [if_pos (Nat.le_of_eq hlen.symm), List.take_of_length_le (Nat.le_of_eq hlen), beNat_toBE hn,
    List.length_cons, hlen, Nat.add_comm]

theorem head_tag {tag : UInt8} {x : Head}
    (hform : form tag = some (0, fun _ => x)) : head [tag] = some (x, 1) :=
  Option.bind_eq_some_iff.2 ⟨_, hform, rfl⟩

private theorem toNat_ofNat (hn : n < 256) : (UInt8.ofNat n).toNat = n := by
  rw [UInt8.toNat_ofNat']
  omega

/-- The encoder picks a form whose head reads back. -/
theorem head_encodeUint (hn : n < 2 ^ 64) :
    head (encodeUint n) = some (.scalar (.uint n), (encodeUint n).length) := by
  unfold encodeUint
  split
  · next h =>
    have ht := toNat_ofNat (n := n) (by omega)
    have hform : form (UInt8.ofNat n) = _ := form_posFixint (by omega)
    rw [ht] at hform
    exact head_tag hform
  split
  · have hform : form 0xcc = some (1, fun n => .scalar (.uint n)) := rfl
    exact head_field hform (by omega)
  split
  · have hform : form 0xcd = some (2, fun n => .scalar (.uint n)) := rfl
    exact head_field hform (by omega)
  split
  · have hform : form 0xce = some (4, fun n => .scalar (.uint n)) := rfl
    exact head_field hform (by omega)
  · have hform : form 0xcf = some (8, fun n => .scalar (.uint n)) := rfl
    exact head_field hform (by omega)

theorem head_encodeInt {i : Int} (hlo : -(2 ^ 63) ≤ i) (hhi : i < 0) :
    head (encodeInt i) = some (.scalar (.int i), (encodeInt i).length) := by
  have hfield : ∀ {tag : UInt8} {k m : Nat},
      form tag = some (k, fun n => .scalar (.int (signed k n))) → m < 256 ^ k →
      signed k m = i → head (tag :: toBE k m)
        = some (.scalar (.int i), (tag :: toBE k m).length) := by
    intro tag k m hform hm hi
    have hh := head_field hform hm
    rw [hi] at hh
    exact hh
  unfold encodeInt
  split
  · next h =>
    have ht := toNat_ofNat (n := (i + 2 ^ 8).toNat) (by omega)
    have hi : signed 1 (i + 2 ^ 8).toNat = i := by
      unfold signed
      split <;> omega
    have hform : form (UInt8.ofNat (i + 2 ^ 8).toNat) = _ :=
      form_negFixint (by omega)
    rw [ht, hi] at hform
    exact head_tag hform
  split
  · exact hfield (k := 1) rfl (by omega) (by unfold signed; split <;> omega)
  split
  · exact hfield (k := 2) rfl (by omega) (by unfold signed; split <;> omega)
  split
  · exact hfield (k := 4) rfl (by omega) (by unfold signed; split <;> omega)
  · exact hfield (k := 8) rfl (by omega) (by unfold signed; split <;> omega)

theorem head_strHead (hn : n < 2 ^ 16) : head (strHead n) = some
    (.str n, (strHead n).length) := by
  unfold strHead
  split
  · next h =>
    have ht := toNat_ofNat (n := 0xa0 + n) (by omega)
    have hform : form (UInt8.ofNat (0xa0 + n)) = _ :=
      form_fixstr (by omega) (by omega)
    rw [ht, Nat.add_sub_cancel_left] at hform
    exact head_tag hform
  split
  · exact head_field (k := 1) (n := n) rfl (by omega)
  · exact head_field (k := 2) (n := n) rfl (by omega)

theorem head_arrayHead (hn : n < 2 ^ 16) :
    head (arrayHead n) = some (.array n, (arrayHead n).length) := by
  unfold arrayHead
  split
  · next h =>
    have ht := toNat_ofNat (n := 0x90 + n) (by omega)
    have hform : form (UInt8.ofNat (0x90 + n)) = _ :=
      form_fixarray (by omega) (by omega)
    rw [ht, Nat.add_sub_cancel_left] at hform
    exact head_tag hform
  · exact head_field (k := 2) (n := n) rfl (by omega)

theorem head_mapHead (hn : n < 2 ^ 16) : head (mapHead n) = some
    (.map n, (mapHead n).length) := by
  unfold mapHead
  split
  · next h =>
    have ht := toNat_ofNat (n := 0x80 + n) (by omega)
    have hform : form (UInt8.ofNat (0x80 + n)) = _ :=
      form_fixmap (by omega) (by omega)
    rw [ht, Nat.add_sub_cancel_left] at hform
    exact head_tag hform
  · exact head_field (k := 2) (n := n) rfl (by omega)

-- ---- no form is shorter

theorem length_encodeUint (n : Nat) :
    (encodeUint n).length = if n < 2 ^ 7 then 1 else if n < 2 ^ 8 then 2
      else if n < 2 ^ 16 then 3 else if n < 2 ^ 32 then 5 else 9 := by
  unfold encodeUint
  simp only [apply_ite List.length, List.length_cons, length_toBE, List.length_nil]

theorem length_strHead (n : Nat) :
    (strHead n).length = if n < 2 ^ 5 then 1 else if n < 2 ^ 8 then 2
      else if n < 2 ^ 16 then 3 else 5 := by
  unfold strHead
  simp only [apply_ite List.length, List.length_cons, length_toBE, List.length_nil]

/-- The encoder has no use for a larger head: a number, whether the head
is for signed ones or not, and the length of a string. -/
def Head.Within (size : Nat) : Head → Prop
  | .scalar (.uint n) => (encodeUint n).length ≤ size
  | .scalar (.int i) => ∀ n : Nat, i = n → (encodeUint n).length ≤ size
  | .str n => (strHead n).length ≤ size
  | _ => True

/-- A field of a signed number that is not negative is the number. -/
private theorem within_int {m : Nat} (hk : k = 1 ∨ k = 2 ∨ k = 4 ∨ k = 8)
    (hm : m < 256 ^ k) (n : Nat) (h : signed k m = n) : (encodeUint n).length ≤ 1 + k := by
  have hn : n < 256 ^ k := by
    unfold signed at h
    split at h
    · omega
    · rcases hk with rfl | rfl | rfl | rfl <;> omega
  rw [length_encodeUint]
  rcases hk with rfl | rfl | rfl | rfl <;> split_ifs <;> omega

/-- The entry of a tag announces nothing that has a smaller head. -/
private def WithinForm : Option (Nat × (Nat → Head)) → Prop
  | some f => ∀ m < 256 ^ f.1, (f.2 m).Within (1 + f.1)
  | none => True

private theorem withinForm_some {g : Nat → Head}
    (hg : ∀ m < 256 ^ k, (g m).Within (1 + k)) : WithinForm (some (k, g)) :=
  hg

private theorem form_within (tag : UInt8) : WithinForm (form tag) := by
  have ht := tag.toNat_lt
  unfold form
  iterate 20
    refine iteInduction (motive := WithinForm)
      (fun h => withinForm_some fun m hm => ?here) fun _ => ?_
    case here =>
      first
      | exact True.intro
      | (simp only [Head.Within, length_strHead]; split_ifs <;> omega)
      | (simp only [Head.Within, length_encodeUint]; split_ifs <;> omega)
      | (simp only [Head.Within]; exact within_int (by decide) hm)
      | (intro n hn; unfold signed at hn; split at hn <;> omega)
  exact True.intro

/-- No form announces more than its field can say. -/
theorem head_within {bs : List UInt8} {x : Head} (h : head bs = some (x, n)) : x.Within n := by
  obtain ⟨tag, tail, f, -, hf, hk, rfl, rfl⟩ := head_inv h
  have hwithin := form_within tag
  rw [hf] at hwithin
  exact hwithin _ (field_lt hk)

/-- No form of a number is shorter than the one the encoder picks, not
even one for signed numbers. -/
theorem encodeUint_shortest {raw : List UInt8}
    (h : Item (.uint n) raw ∨ Item (.int n) raw) : (encodeUint n).length ≤ raw.length := by
  rcases h with h | h
  · cases h with
    | scalar hh => exact head_within hh
  · cases h with
    | scalar hh => exact head_within hh n rfl

/-- The longest form of a string, for which the table has no entry. -/
def str32 (s : List UInt8) : List UInt8 := 0xdb :: toBE 4 s.length ++ s

theorem encode_str_shortest {s raw : List UInt8} (h : Item (.str s) raw ∨ raw = str32 s) :
    (encode (.str s)).length ≤ raw.length := by
  rw [encode_str, List.length_append]
  rcases h with h | rfl
  · cases h with
    | scalar hh => exact (head_plain hh).2.elim
    | str hh =>
      have hhead : (strHead s.length).length ≤ _ := head_within hh
      rw [List.length_append]
      exact Nat.add_le_add_right hhead s.length
  · have hhead : (strHead s.length).length ≤ 5 := by
      rw [length_strHead]
      split_ifs <;> omega
    rw [str32, List.length_append, List.length_cons, length_toBE]
    exact Nat.add_le_add_right hhead s.length

-- ---- what it writes is an item

/-- The parts of an array as the encoder writes them. -/
private def partsOf (xs : List Datum) : List Part := xs.map fun x => (x, encode x)

/-- The entries of a map as the encoder writes them. -/
private def entriesOf (es : List (Datum × Datum)) : List (Part × Part) :=
  es.map fun e => ((e.1, encode e.1), (e.2, encode e.2))

private theorem length_partsOf (xs : List Datum) :
    (partsOf xs).length = xs.length := List.length_map ..

private theorem data_partsOf (xs : List Datum) : (partsOf xs).map Prod.fst = xs := by
  unfold partsOf
  rw [List.map_map]
  exact List.map_id xs

private theorem flat_partsOf (xs : List Datum) : flat (partsOf xs) = encodeAll xs := by
  induction xs with
  | nil => rfl
  | cons x xs ih =>
    show flat ((x, encode x) :: partsOf xs) = _
    rw [flat_cons, ih, encodeAll]

private theorem length_entriesOf (es : List (Datum × Datum)) :
    (entriesOf es).length = es.length := List.length_map ..

private theorem data_entriesOf (es : List (Datum × Datum)) :
    (entriesOf es).map (fun e => (e.1.1, e.2.1)) = es := by
  unfold entriesOf
  rw [List.map_map]
  exact List.map_id es

private theorem flat_entriesOf (es : List (Datum × Datum)) :
    flat (turns (entriesOf es)) = encodeEntries es := by
  induction es with
  | nil => rfl
  | cons e es ih =>
    show flat (turns (((e.1, encode e.1), (e.2, encode e.2)) :: entriesOf es)) = _
    rw [turns_cons, flat_cons, flat_cons, ih, encodeEntries, encodeEntry, List.append_assoc]

mutual

/-- The smallest encoding is an encoding. -/
theorem encode_item : ∀ d : Datum, Fits d → Item d (encode d)
  | .nil, _ => .scalar rfl
  | .bool b, _ => by
      cases b with
      | false => exact .scalar rfl
      | true => exact .scalar rfl
  | .uint n, h => .scalar (head_encodeUint h)
  | .int i, h => .scalar (head_encodeInt h.1 h.2)
  | .str s, h => .str (head_strHead h)
  | .array xs, h => by
      have hhead := head_arrayHead h.1
      rw [← length_partsOf] at hhead
      have hitem := Item.array hhead (encodeAll_items xs h.2)
      rw [flat_partsOf, data_partsOf, length_partsOf] at hitem
      exact hitem
  | .map es, h => by
      have hhead := head_mapHead h.1
      rw [← length_entriesOf] at hhead
      have hitem := Item.map hhead (encodeEntries_items es h.2)
      rw [flat_entriesOf, data_entriesOf, length_entriesOf] at hitem
      exact hitem

theorem encodeAll_items : ∀ xs : List Datum, FitsAll xs →
    ∀ p ∈ partsOf xs, Item p.1 p.2
  | [], _ => fun p hp => absurd hp List.not_mem_nil
  | x :: xs, h => by
      intro p hp
      rcases List.mem_cons.1 hp with rfl | hp
      · exact encode_item x h.1
      · exact encodeAll_items xs h.2 p hp

theorem encodeEntries_items : ∀ es : List (Datum × Datum), FitsEntries es →
    ∀ p ∈ turns (entriesOf es), Item p.1 p.2
  | [], _ => fun p hp => absurd hp List.not_mem_nil
  | (k, v) :: es, h => by
      intro p hp
      rcases List.mem_cons.1 hp with rfl | hp
      · exact encode_item k h.1.1
      rcases List.mem_cons.1 hp with rfl | hp
      · exact encode_item v h.1.2
      · exact encodeEntries_items es h.2 p hp

end

-- ---- what a length says

mutual

/-- Every number of the value is a machine integer. -/
def Ranged : Datum → Prop
  | .nil => True
  | .bool _ => True
  | .uint n => n < 2 ^ 64
  | .int i => -(2 ^ 63) ≤ i ∧ i < 0
  | .str _ => True
  | .array xs => RangedAll xs
  | .map es => RangedEntries es

def RangedAll : List Datum → Prop
  | [] => True
  | x :: xs => Ranged x ∧ RangedAll xs

def RangedEntries : List (Datum × Datum) → Prop
  | [] => True
  | e :: es => RangedEntry e ∧ RangedEntries es

def RangedEntry : Datum × Datum → Prop
  | (k, v) => Ranged k ∧ Ranged v

end

private theorem strHead_pos (n : Nat) : 0 < (strHead n).length := by
  unfold strHead
  split <;> (try split) <;> (try split) <;> simp

private theorem arrayHead_pos (n : Nat) : 0 < (arrayHead n).length := by
  unfold arrayHead
  split <;> (try split) <;> simp

private theorem mapHead_pos (n : Nat) : 0 < (mapHead n).length := by
  unfold mapHead
  split <;> (try split) <;> simp

private theorem encodeUint_pos (n : Nat) : 0 < (encodeUint n).length := by
  unfold encodeUint
  split <;> (try split) <;> (try split) <;> (try split) <;> simp

theorem encodeUint_length_le (n : Nat) : (encodeUint n).length ≤ 9 := by
  unfold encodeUint
  split <;> (try split) <;> (try split) <;> (try split) <;> simp

private theorem encodeInt_pos (i : Int) : 0 < (encodeInt i).length := by
  unfold encodeInt
  split <;> (try split) <;> (try split) <;> (try split) <;> simp

/-- Nothing is encoded as no bytes. -/
theorem encode_pos (d : Datum) : 0 < (encode d).length := by
  cases d with
  | nil => exact Nat.one_pos
  | bool b => exact Nat.one_pos
  | uint n => exact encodeUint_pos n
  | int i => exact encodeInt_pos i
  | str s =>
    rw [encode, List.length_append]
    have := strHead_pos s.length
    omega
  | array xs =>
    rw [encode, List.length_append]
    have := arrayHead_pos xs.length
    omega
  | map es =>
    rw [encode, List.length_append]
    have := mapHead_pos es.length
    omega

private theorem length_le_encodeAll (xs : List Datum) : xs.length ≤ (encodeAll xs).length := by
  induction xs with
  | nil => exact Nat.le_refl _
  | cons x xs ih =>
    have := encode_pos x
    rw [encodeAll, List.length_append, List.length_cons]
    omega

private theorem length_le_encodeEntries (es : List (Datum × Datum)) :
    es.length ≤ (encodeEntries es).length := by
  induction es with
  | nil => exact Nat.le_refl _
  | cons e es ih =>
    have := encode_pos e.1
    rw [encodeEntries, encodeEntry, List.length_append, List.length_append, List.length_cons]
    omega

mutual

/-- A value whose encoding is short has no long string and no long
list. -/
theorem fits_of_length : ∀ d : Datum, Ranged d → (encode d).length ≤ 2 ^ 16 → Fits d
  | .nil, _, _ => True.intro
  | .bool _, _, _ => True.intro
  | .uint _, h, _ => h
  | .int _, h, _ => h
  | .str s, _, hlen => by
      rw [encode, List.length_append] at hlen
      have := strHead_pos s.length
      show s.length < 2 ^ 16
      omega
  | .array xs, h, hlen => by
      rw [encode, List.length_append] at hlen
      have := arrayHead_pos xs.length
      have := length_le_encodeAll xs
      exact ⟨by omega, fitsAll_of_length xs h (by omega)⟩
  | .map es, h, hlen => by
      rw [encode, List.length_append] at hlen
      have := mapHead_pos es.length
      have := length_le_encodeEntries es
      exact ⟨by omega, fitsEntries_of_length es h (by omega)⟩

theorem fitsAll_of_length : ∀ xs : List Datum, RangedAll xs →
    (encodeAll xs).length ≤ 2 ^ 16 → FitsAll xs
  | [], _, _ => True.intro
  | x :: xs, h, hlen => by
      rw [encodeAll, List.length_append] at hlen
      exact ⟨fits_of_length x h.1 (by omega), fitsAll_of_length xs h.2 (by omega)⟩

theorem fitsEntries_of_length : ∀ es : List (Datum × Datum), RangedEntries es →
    (encodeEntries es).length ≤ 2 ^ 16 → FitsEntries es
  | [], _, _ => True.intro
  | (k, v) :: es, h, hlen => by
      rw [encodeEntries, encodeEntry, List.length_append, List.length_append] at hlen
      exact ⟨⟨fits_of_length k h.1.1 (by omega), fits_of_length v h.1.2 (by omega)⟩,
        fitsEntries_of_length es h.2 (by omega)⟩

end

-- ---- entries it writes

section Entries

variable {key : List UInt8} {d : Datum}

/-- The place of the value of an entry in a map that the encoder
writes. -/
def entryOffset (before : List (Datum × Datum)) (key : List UInt8) : Nat :=
  (encodeEntries before).length + (encode (.str key)).length

/-- The bytes of an entry that the encoder writes. -/
private def bytesOf (e : Datum × Datum) : List UInt8 × List UInt8 := (encode e.1, encode e.2)

private theorem encodeEntries_eq (es : List (Datum × Datum)) :
    encodeEntries es = rows (es.map bytesOf) := by
  induction es with
  | nil =>
    rw [encodeEntries]
    rfl
  | cons e es ih =>
    rw [encodeEntries, encodeEntry, ih]
    rfl

private theorem encodeEntries_append (before after : List (Datum × Datum)) (k v : Datum) :
    encodeEntries (before ++ (k, v) :: after)
      = encodeEntries before ++ (encode k ++ (encode v ++ encodeEntries after)) := by
  rw [encodeEntries_eq, List.map_append, rows, List.flatMap_append, List.map_cons,
    List.flatMap_cons, List.append_assoc, encodeEntries_eq, encodeEntries_eq]
  rfl

private theorem otherKey_bytesOf (hfits : FitsEntries es)
    (hne : ∀ e ∈ es, e.1 ≠ .str key) : ∀ e ∈ es.map bytesOf, OtherKey key e := by
  induction es with
  | nil => exact fun e he => absurd he List.not_mem_nil
  | cons e es ih =>
    obtain ⟨k, v⟩ := e
    intro x hx
    rcases List.mem_cons.1 hx with rfl | hx
    · exact ⟨k, v, encode_item _ hfits.1.1, encode_item _ hfits.1.2, hne (k, v) List.mem_cons_self⟩
    · exact ih hfits.2 (fun y hy => hne y (List.mem_cons_of_mem _ hy)) x hx

private theorem FitsEntries.append {before after : List (Datum × Datum)}
    (h : FitsEntries (before ++ after)) : FitsEntries before ∧ FitsEntries after := by
  induction before with
  | nil => exact ⟨True.intro, h⟩
  | cons e before ih => exact ⟨⟨h.1, (ih h.2).1⟩, (ih h.2).2⟩

/-- An entry of a map that the encoder writes. -/
theorem entry_encode (before after : List (Datum × Datum))
    (hes : es = before ++ (.str key, d) :: after) (hfits : Fits (.map es))
    (hne : ∀ e ∈ before, e.1 ≠ .str key) : Entry key (encode (.map es))
      ((mapHead es.length).length + entryOffset before key) d (encode d) := by
  subst hes
  refine .intro (head_append (head_mapHead hfits.1) _) ?_
  obtain ⟨hbefore, hd, -⟩ := hfits.2.append
  have hentry := entryIn_rows (otherKey_bytesOf hbefore hne) (encode_item _ hd.1)
    (encode_item _ hd.2) after.length (encodeEntries after)
  rw [List.length_map, ← encodeEntries_eq] at hentry
  rw [encode, List.drop_left, List.length_append, encodeEntries_append]
  exact hentry

/-- A map that the encoder writes has no entry under another key. -/
theorem no_entry_encode (hfits : Fits (.map es))
    (hne : ∀ e ∈ es, e.1 ≠ .str key) (off : Nat) (d : Datum) (raw : List UInt8) :
    ¬ Entry key (encode (.map es)) off d raw := by
  intro h
  generalize hbs : encode (.map es) = bs at h
  cases h with
  | intro hh h =>
    have hhead := head_append (head_mapHead hfits.1) (encodeEntries es)
    rw [← hbs, encode, hhead] at hh
    injection hh with hh
    injection hh with hx hn
    injection hx with hx
    subst hx hn
    rw [← hbs, encode, List.drop_left, encodeEntries_eq, ← List.append_nil (rows _),
      ← List.length_map (f := bytesOf)] at h
    exact no_entryIn_rows (otherKey_bytesOf hfits.2 hne) [] h

end Entries

end Dynamod.Lib.MessagePack
