/-
MessagePack: value trees and the byte strings that encode them.

# Formats

`form` is the table of tags: how many bytes of big-endian field follow
the tag, and what the two together announce. A scalar is announced
whole; a string, an array or a map announces its length. The table
covers the formats with lengths of at most 16 bits, without floats,
binary and extension values.

`Item d bs` says that `bs` is an encoding of `d`, in whatever widths
the encoder chose. The encodings are a prefix code (`Item.unique`):
what follows an item does not matter, and an item is not the beginning
of another one.

# Map entries

`Entry key bs off d raw`: the bytes `bs` begin with a map, and the
first of its entries under the string `key` has the value `d`, encoded
as `raw` at offset `off`. The entries behind it need not even be
complete.
-/
import Mathlib.Data.List.Basic
import Dynamod.Lib.Bytes

namespace Dynamod.Lib.MessagePack

variable {k off : Nat} {tag : UInt8} {tail bs raw key : List UInt8}

inductive Datum
  | nil
  | bool (b : Bool)
  | uint (n : Nat)
  | int (i : Int)
  | str (s : List UInt8)
  | array (xs : List Datum)
  | map (es : List (Datum × Datum))

variable {d : Datum}

/-- What the first bytes of a value announce. -/
inductive Head
  | scalar (d : Datum)
  | str (length : Nat)
  | array (count : Nat)
  | map (count : Nat)

/-- The table of tags: the width of the field behind the tag and what
its value announces. -/
def form (tag : UInt8) : Option (Nat × (Nat → Head)) :=
  let t := tag.toNat
  if t < 0x80 then some (0, fun _ => .scalar (.uint t))
  else if t < 0x90 then some (0, fun _ => .map (t - 0x80))
  else if t < 0xa0 then some (0, fun _ => .array (t - 0x90))
  else if t < 0xc0 then some (0, fun _ => .str (t - 0xa0))
  else if t = 0xc0 then some (0, fun _ => .scalar .nil)
  else if t = 0xc2 then some (0, fun _ => .scalar (.bool false))
  else if t = 0xc3 then some (0, fun _ => .scalar (.bool true))
  else if t = 0xcc then some (1, fun n => .scalar (.uint n))
  else if t = 0xcd then some (2, fun n => .scalar (.uint n))
  else if t = 0xce then some (4, fun n => .scalar (.uint n))
  else if t = 0xcf then some (8, fun n => .scalar (.uint n))
  else if t = 0xd0 then some (1, fun n => .scalar (.int (signed 1 n)))
  else if t = 0xd1 then some (2, fun n => .scalar (.int (signed 2 n)))
  else if t = 0xd2 then some (4, fun n => .scalar (.int (signed 4 n)))
  else if t = 0xd3 then some (8, fun n => .scalar (.int (signed 8 n)))
  else if t = 0xd9 then some (1, fun n => .str n)
  else if t = 0xda then some (2, fun n => .str n)
  else if t = 0xdc then some (2, fun n => .array n)
  else if t = 0xde then some (2, fun n => .map n)
  else if 0xe0 ≤ t then some (0, fun _ => .scalar (.int (signed 1 t)))
  else none

theorem form_posFixint (h : tag.toNat < 0x80) :
    form tag = some (0, fun _ => .scalar (.uint tag.toNat)) :=
  if_pos h

theorem form_fixmap (hlo : 0x80 ≤ tag.toNat) (hhi : tag.toNat < 0x90) :
    form tag = some (0, fun _ => .map (tag.toNat - 0x80)) := by
  unfold form
  rw [if_neg (by omega), if_pos hhi]

theorem form_fixarray (hlo : 0x90 ≤ tag.toNat) (hhi : tag.toNat < 0xa0) :
    form tag = some (0, fun _ => .array (tag.toNat - 0x90)) := by
  unfold form
  rw [if_neg (by omega), if_neg (by omega), if_pos hhi]

theorem form_fixstr (hlo : 0xa0 ≤ tag.toNat) (hhi : tag.toNat < 0xc0) :
    form tag = some (0, fun _ => .str (tag.toNat - 0xa0)) := by
  unfold form
  rw [if_neg (by omega), if_neg (by omega), if_neg (by omega), if_pos hhi]

theorem form_negFixint (h : 0xe0 ≤ tag.toNat) :
    form tag = some (0, fun _ => .scalar (.int (signed 1 tag.toNat))) := by
  unfold form
  rw [if_neg (by omega), if_neg (by omega), if_neg (by omega),
    if_neg (by omega), if_neg (by omega), if_neg (by omega),
    if_neg (by omega), if_neg (by omega), if_neg (by omega),
    if_neg (by omega), if_neg (by omega), if_neg (by omega),
    if_neg (by omega), if_neg (by omega), if_neg (by omega),
    if_neg (by omega), if_neg (by omega), if_neg (by omega),
    if_neg (by omega), if_pos h]

/-- What a head can be: a scalar is announced whole, and a length has
at most 16 bits. -/
def Head.Plain : Head → Prop
  | .scalar .nil => True
  | .scalar (.bool _) => True
  | .scalar (.uint n) => n < 2 ^ 64
  | .scalar (.int _) => True
  | .scalar _ => False
  | .str n => n < 2 ^ 16
  | .array n => n < 2 ^ 16
  | .map n => n < 2 ^ 16

/-- The entry of a tag announces only plain heads. -/
private def PlainForm : Option (Nat × (Nat → Head)) → Prop
  | some f => f.1 ≤ 8 ∧ ∀ m < 256 ^ f.1, (f.2 m).Plain
  | none => True

private theorem plainForm_some {g : Nat → Head} (hk : k ≤ 8)
    (hg : ∀ m < 256 ^ k, (g m).Plain) : PlainForm (some (k, g)) :=
  ⟨hk, hg⟩

private theorem form_plain (tag : UInt8) : PlainForm (form tag) := by
  have ht := tag.toNat_lt
  unfold form
  -- one step per line of the table
  iterate 20
    refine iteInduction (motive := PlainForm)
      (fun h => plainForm_some (by decide) fun m hm => ?plain) fun _ => ?_
    case plain => first | exact True.intro | (show _ < 2 ^ _; omega)
  exact True.intro

/-- The tags that announce a map. -/
private def MapForm (tag : UInt8) : Option (Nat × (Nat → Head)) → Prop
  | some f => ∀ m count, f.2 m = .map count →
      (0x80 ≤ tag.toNat ∧ tag.toNat < 0x90) ∨ tag.toNat = 0xde
  | none => True

private theorem mapForm_some {g : Nat → Head} (hg : ∀ m count, g m = .map count →
    (0x80 ≤ tag.toNat ∧ tag.toNat < 0x90) ∨ tag.toNat = 0xde) : MapForm tag (some (k, g)) :=
  hg

private theorem form_map (tag : UInt8) : MapForm tag (form tag) := by
  unfold form
  iterate 20
    refine iteInduction (motive := MapForm tag)
      (fun h => mapForm_some fun m count hm => ?here) fun _ => ?_
    case here => first | omega | cases hm
  exact True.intro

/-- The head at the start of a byte string, and its size. -/
def head : List UInt8 → Option (Head × Nat)
  | [] => none
  | tag :: rest =>
    (form tag).bind fun f =>
      if f.1 ≤ rest.length then some (f.2 (beNat (rest.take f.1)), 1 + f.1)
      else none

/-- A value together with its encoding. -/
abbrev Part := Datum × List UInt8

/-- The encodings of several values, one behind the other. -/
def flat (parts : List Part) : List UInt8 := (parts.map Prod.snd).flatten

/-- The parts of map entries, keys and values in turn. -/
def turns (es : List (Part × Part)) : List Part :=
  es.flatMap fun e => [e.1, e.2]

/-- The byte string encodes the value. -/
inductive Item : Datum → List UInt8 → Prop
  | scalar {d : Datum} {h : List UInt8} :
      head h = some (.scalar d, h.length) → Item d h
  | str {h s : List UInt8} :
      head h = some (.str s.length, h.length) → Item (.str s) (h ++ s)
  | array {h : List UInt8} {xs : List Part} :
      head h = some (.array xs.length, h.length) →
      (∀ p ∈ xs, Item p.1 p.2) →
      Item (.array (xs.map Prod.fst)) (h ++ flat xs)
  | map {h : List UInt8} {es : List (Part × Part)} :
      head h = some (.map es.length, h.length) →
      (∀ p ∈ turns es, Item p.1 p.2) →
      Item (.map (es.map fun e => (e.1.1, e.2.1))) (h ++ flat (turns es))

/-- The first entry under a string key in a row of entries: the offset
of its value, the value and its bytes. Nothing is said about what
follows. -/
inductive EntryIn (key : List UInt8) :
    Nat → List UInt8 → Nat → Datum → List UInt8 → Prop
  | here {n : Nat} {kb raw rest : List UInt8} {d : Datum} :
      Item (.str key) kb → Item d raw →
      EntryIn key (n + 1) (kb ++ (raw ++ rest)) kb.length d raw
  | later {n off : Nat} {kb vb raw rest : List UInt8} {k v d : Datum} :
      Item k kb → Item v vb → k ≠ .str key → EntryIn key n rest off d raw →
      EntryIn key (n + 1) (kb ++ (vb ++ rest)) (kb.length + vb.length + off) d raw

/-- The first entry under a string key in the map that `bs` begins
with. -/
inductive Entry (key : List UInt8) :
    List UInt8 → Nat → Datum → List UInt8 → Prop
  | intro {count n off : Nat} {bs raw : List UInt8} {d : Datum} :
      head bs = some (.map count, n) → EntryIn key count (bs.drop n) off d raw →
      Entry key bs (n + off) d raw

-- ==== the prefix code

section Prefix

variable {rest : List UInt8} {x : Head} {n : Nat}

theorem head_of_form {f : Nat × (Nat → Head)} (hf : form tag = some f) (hk : f.1 ≤ tail.length) :
    head (tag :: tail) = some (f.2 (beNat (tail.take f.1)), 1 + f.1) :=
  Option.bind_eq_some_iff.2 ⟨f, hf, if_pos hk⟩

/-- A head is the tag of an entry of the table and the field behind it. -/
theorem head_inv (h : head bs = some (x, n)) :
    ∃ tag tail f, bs = tag :: tail ∧ form tag = some f ∧ f.1 ≤ tail.length
      ∧ x = f.2 (beNat (tail.take f.1)) ∧ n = 1 + f.1 := by
  cases bs with
  | nil => cases h
  | cons tag tail =>
    obtain ⟨f, hf, h⟩ := Option.bind_eq_some_iff.1 h
    split at h
    · next hk =>
      injection h with h
      injection h with hx hn
      exact ⟨tag, tail, f, rfl, hf, hk, hx.symm, hn.symm⟩
    · cases h

theorem field_lt (hk : k ≤ tail.length) : beNat (tail.take k) < 256 ^ k := by
  have hfield := beNat_lt (tail.take k)
  rwa [List.length_take, Nat.min_eq_left hk] at hfield

theorem head_size (h : head bs = some (x, n)) : 1 ≤ n ∧ n ≤ bs.length := by
  obtain ⟨tag, tail, f, rfl, -, hk, -, rfl⟩ := head_inv h
  rw [List.length_cons]
  omega

theorem head_plain (h : head bs = some (x, n)) : n ≤ 9 ∧ x.Plain := by
  obtain ⟨tag, tail, f, -, hf, hk, rfl, rfl⟩ := head_inv h
  have hplain := form_plain tag
  rw [hf] at hplain
  exact ⟨Nat.add_comm f.1 1 ▸ Nat.succ_le_succ hplain.1, hplain.2 _ (field_lt hk)⟩

/-- A map is announced by a `fixmap` or a `map16` tag. -/
theorem head_map {count : Nat} (h : head (tag :: tail) = some (.map count, n)) :
    (0x80 ≤ tag.toNat ∧ tag.toNat < 0x90) ∨ tag.toNat = 0xde := by
  obtain ⟨tag, tail, f, hbs, hf, -, hx, -⟩ := head_inv h
  cases hbs
  have hmap := form_map tag
  rw [hf] at hmap
  exact hmap _ _ hx.symm

/-- A head is known by its own bytes. -/
theorem head_append (h : head bs = some (x, n)) (rest : List UInt8) :
    head (bs ++ rest) = some (x, n) := by
  obtain ⟨tag, tail, f, rfl, hf, hk, rfl, rfl⟩ := head_inv h
  rw [List.cons_append, head_of_form hf (by rw [List.length_append]; omega),
    List.take_append_of_le_length hk]

theorem head_take (h : head bs = some (x, n)) :
    head (bs.take n) = some (x, (bs.take n).length) := by
  have hsize := head_size h
  rw [List.length_take, Nat.min_eq_left hsize.2]
  obtain ⟨tag, tail, f, rfl, hf, hk, rfl, rfl⟩ := head_inv h
  have hlen : (tail.take f.1).length = f.1 := List.length_take_of_le hk
  rw [Nat.add_comm 1 f.1, List.take_succ_cons, head_of_form hf (Nat.le_of_eq hlen.symm),
    List.take_take, Nat.min_self, Nat.add_comm 1 f.1]

end Prefix

@[simp] theorem flat_cons (p : Part) (ps : List Part) : flat (p :: ps) = p.2 ++ flat ps := by
  simp [flat]

@[simp] theorem turns_nil : turns [] = [] := rfl

@[simp] theorem turns_cons (e : Part × Part) (es : List (Part × Part)) :
    turns (e :: es) = e.1 :: e.2 :: turns es := by
  simp [turns]

@[simp] theorem length_turns (es : List (Part × Part)) : (turns es).length = 2 * es.length := by
  induction es with
  | nil => rfl
  | cons e es ih =>
    rw [turns_cons, List.length_cons, List.length_cons, ih, List.length_cons]
    omega

/-- The entries can be read off the row of their parts. -/
theorem turns_injective {es es' : List (Part × Part)} (h : turns es = turns es') : es = es' := by
  induction es generalizing es' with
  | nil =>
    cases es' with
    | nil => rfl
    | cons e' es' => simp at h
  | cons e es ih =>
    cases es' with
    | nil => simp at h
    | cons e' es' =>
      rw [turns_cons, turns_cons] at h
      injection h with h₁ h
      injection h with h₂ h
      rw [Prod.ext h₁ h₂, ih h]

/-- An even number of parts is a row of entries. -/
theorem exists_turns {ps : List Part} (h : ps.length = 2 * k) :
    ∃ es : List (Part × Part), es.length = k ∧ turns es = ps := by
  induction k generalizing ps with
  | zero => exact ⟨[], rfl, (List.eq_nil_of_length_eq_zero h).symm⟩
  | succ k ih =>
    cases ps with
    | nil => cases h
    | cons p ps =>
      cases ps with
      | nil =>
        rw [List.length_singleton] at h
        omega
      | cons q ps =>
        rw [List.length_cons, List.length_cons] at h
        obtain ⟨es, hlen, hes⟩ := ih (show ps.length = 2 * k by omega)
        exact ⟨(p, q) :: es, congrArg (· + 1) hlen, by rw [turns_cons, hes]⟩

/-- What stands behind the head of an item, by what the head announces. -/
def Behind (d : Datum) (body : List UInt8) : Head → Prop
  | .scalar d' => d = d' ∧ body = []
  | .str n => d = .str body ∧ body.length = n
  | .array n => ∃ xs : List Part, xs.length = n ∧ (∀ p ∈ xs, Item p.1 p.2)
      ∧ d = .array (xs.map Prod.fst) ∧ body = flat xs
  | .map n => ∃ es : List (Part × Part), es.length = n ∧ (∀ p ∈ turns es, Item p.1 p.2)
      ∧ d = .map (es.map fun e => (e.1.1, e.2.1)) ∧ body = flat (turns es)

theorem Item.split (h : Item d bs) :
    ∃ hd x body, bs = hd ++ body ∧ head hd = some (x, hd.length) ∧ Behind d body x := by
  cases h with
  | scalar hh => exact ⟨bs, _, [], (List.append_nil bs).symm, hh, rfl, rfl⟩
  | str hh => exact ⟨_, _, _, rfl, hh, rfl, rfl⟩
  | array hh hxs => exact ⟨_, _, _, rfl, hh, _, rfl, hxs, rfl, rfl⟩
  | map hh hes => exact ⟨_, _, _, rfl, hh, _, rfl, hes, rfl, rfl⟩

/-- An item at the start of a byte string has the head that stands there. -/
theorem Item.behind {x : Head} {n : Nat} (h : Item d raw) (hh : head bs = some (x, n))
    (hp : raw <+: bs) : ∃ body, raw = bs.take n ++ body ∧ body <+: bs.drop n
      ∧ Behind d body x := by
  obtain ⟨hd, x', body, rfl, hhd, hbehind⟩ := h.split
  obtain ⟨r, rfl⟩ := hp
  rw [List.append_assoc] at hh ⊢
  rw [head_append hhd] at hh
  injection hh with hh
  injection hh with hx hn
  subst hx hn
  rw [List.take_left, List.drop_left]
  exact ⟨body, rfl, List.prefix_append _ _, hbehind⟩

theorem Item.head_some (h : Item d bs) : ∃ x n, head bs = some (x, n) := by
  obtain ⟨hd, x, body, rfl, hh, -⟩ := h.split
  exact ⟨x, _, head_append hh body⟩

theorem Item.length_str {s : List UInt8} (h : Item (.str s) bs) : s.length ≤ bs.length := by
  cases h with
  | scalar hh =>
    have hplain := (head_plain hh).2
    exact hplain.elim
  | str _ =>
    rw [List.length_append]
    omega

/-- The items of a container are determined by its bytes once each of
them is. -/
private theorem flat_unique {ps : List Part}
    (ih : ∀ p ∈ ps, ∀ {d : Datum} {bs r r' : List UInt8}, Item d bs →
      p.2 ++ r = bs ++ r' → p.1 = d ∧ p.2 = bs) :
    ∀ {qs : List Part} {r r' : List UInt8}, ps.length = qs.length →
      (∀ q ∈ qs, Item q.1 q.2) → flat ps ++ r = flat qs ++ r' → ps = qs := by
  induction ps with
  | nil =>
    intro qs r r' hlen _ _
    exact (List.eq_nil_of_length_eq_zero hlen.symm).symm
  | cons p ps ihps =>
    intro qs r r' hlen hqs heq
    cases qs with
    | nil => cases hlen
    | cons q qs =>
      rw [flat_cons, flat_cons, List.append_assoc, List.append_assoc] at heq
      obtain ⟨hd, hb⟩ := ih p List.mem_cons_self
        (hqs q List.mem_cons_self) heq
      rw [hb] at heq
      have hrest := List.append_cancel_left heq
      rw [Prod.ext hd hb, ihps (fun p' hp' => ih p' (List.mem_cons_of_mem _ hp'))
        (Nat.succ.inj hlen) (fun q' hq' => hqs q' (List.mem_cons_of_mem _ hq'))
        hrest]

/-- No item begins with another one: the bytes determine the value and
its length. -/
theorem Item.unique (h : Item d bs) :
    ∀ {d' : Datum} {bs' r r' : List UInt8}, Item d' bs' →
      bs ++ r = bs' ++ r' → d = d' ∧ bs = bs' := by
  -- the other item has the same head, and so the same kind of body
  induction h with
  | scalar hh =>
    intro d' bs' r r' h' heq
    obtain ⟨body, hbs, -, hd, hbody⟩ := h'.behind (head_append hh r) ⟨r', heq.symm⟩
    rw [List.take_left, hbody, List.append_nil] at hbs
    exact ⟨hd.symm, hbs.symm⟩
  | str hh =>
    intro d' bs' r r' h' heq
    rw [List.append_assoc] at heq
    obtain ⟨body, hbs, ⟨t, ht⟩, hd, hlen⟩ := h'.behind (head_append hh _) ⟨r', heq.symm⟩
    rw [List.take_left] at hbs
    rw [List.drop_left] at ht
    obtain ⟨hs, -⟩ := List.append_inj ht hlen
    rw [hd, hbs, hs]
    exact ⟨rfl, rfl⟩
  | array hh _ ih =>
    intro d' bs' r r' h' heq
    rw [List.append_assoc] at heq
    obtain ⟨body, hbs, ⟨t, ht⟩, xs, hlen, hitems, hd, rfl⟩ :=
      h'.behind (head_append hh _) ⟨r', heq.symm⟩
    rw [List.take_left] at hbs
    rw [List.drop_left] at ht
    rw [hd, hbs, flat_unique ih hlen.symm hitems ht.symm]
    exact ⟨rfl, rfl⟩
  | map hh _ ih =>
    intro d' bs' r r' h' heq
    rw [List.append_assoc] at heq
    obtain ⟨body, hbs, ⟨t, ht⟩, es, hlen, hitems, hd, rfl⟩ :=
      h'.behind (head_append hh _) ⟨r', heq.symm⟩
    rw [List.take_left] at hbs
    rw [List.drop_left] at ht
    have hturns := congrArg (2 * ·) hlen.symm
    rw [← length_turns, ← length_turns] at hturns
    rw [hd, hbs, turns_injective (flat_unique ih hturns hitems ht.symm)]
    exact ⟨rfl, rfl⟩

/-- The item at the start of a byte string is the only one. -/
theorem item_unique {d' : Datum} {raw' : List UInt8}
    (h : Item d raw) (h' : Item d' raw') (hp : raw <+: bs) (hp' : raw' <+: bs) :
    d = d' ∧ raw = raw' := by
  obtain ⟨r, hr⟩ := hp
  obtain ⟨r', hr'⟩ := hp'
  exact h.unique h' (hr.trans hr'.symm)

section Entries

variable {n : Nat}

/-- A row that is not empty begins with a key and a value. -/
theorem EntryIn.items (h : EntryIn key (n + 1) bs off d raw) :
    ∃ k kb v vb, Item k kb ∧ kb <+: bs ∧ Item v vb ∧ vb <+: bs.drop kb.length := by
  cases h with
  | here hk hv =>
    refine ⟨_, _, _, _, hk, List.prefix_append _ _, hv, ?_⟩
    rw [List.drop_left]
    exact List.prefix_append _ _
  | later hk hv _ _ =>
    refine ⟨_, _, _, _, hk, List.prefix_append _ _, hv, ?_⟩
    rw [List.drop_left]
    exact List.prefix_append _ _

/-- The first entry of a row is the one searched, or it is behind
it. -/
theorem entryIn_succ {kb vb : List UInt8} {k v : Datum}
    (hk : Item k kb) (hkp : kb <+: bs) (hv : Item v vb) (hvp : vb <+: bs.drop kb.length) :
    EntryIn key (n + 1) bs off d raw ↔ (k = .str key ∧ off = kb.length ∧ d = v ∧ raw = vb)
        ∨ (k ≠ .str key ∧ ∃ off', off = kb.length + vb.length + off'
          ∧ EntryIn key n (bs.drop (kb.length + vb.length)) off' d raw) := by
  obtain ⟨r, rfl⟩ := hkp
  rw [List.drop_left] at hvp
  obtain ⟨r, rfl⟩ := hvp
  have hdrop : (kb ++ (vb ++ r)).drop (kb.length + vb.length) = r := by
    rw [← List.append_assoc, ← List.length_append, List.drop_left]
  rw [hdrop]
  constructor
  · intro h
    generalize hbs : kb ++ (vb ++ r) = bs at h
    cases h with
    | here hk' hd' =>
      obtain ⟨rfl, rfl⟩ := hk.unique hk' hbs
      obtain ⟨rfl, rfl⟩ := hv.unique hd' (List.append_cancel_left hbs)
      exact .inl ⟨rfl, rfl, rfl, rfl⟩
    | later hk' hv' hne h =>
      obtain ⟨rfl, rfl⟩ := hk.unique hk' hbs
      have hbs := List.append_cancel_left hbs
      obtain ⟨rfl, rfl⟩ := hv.unique hv' hbs
      obtain rfl := List.append_cancel_left hbs
      exact .inr ⟨hne, _, rfl, h⟩
  · rintro (⟨rfl, rfl, rfl, rfl⟩ | ⟨hne, off', rfl, h⟩)
    · exact .here hk hv
    · exact .later hk hv hne h

/-- A key is found at one place: at its first entry. -/
theorem EntryIn.unique (h : EntryIn key n bs off d raw) :
    ∀ {off' : Nat} {raw' : List UInt8} {d' : Datum},
      EntryIn key n bs off' d' raw' → off = off' ∧ d = d' ∧ raw = raw' := by
  induction n generalizing bs off with
  | zero => cases h
  | succ n ih =>
    intro off' raw' d' h'
    obtain ⟨k, kb, v, vb, hk, hkp, hv, hvp⟩ := h.items
    rw [entryIn_succ hk hkp hv hvp] at h h'
    obtain ⟨hkey, rfl, rfl, rfl⟩ | ⟨hne, o, rfl, h⟩ := h
    · obtain ⟨-, rfl, rfl, rfl⟩ | ⟨hne, -⟩ := h'
      · exact ⟨rfl, rfl, rfl⟩
      · exact absurd hkey hne
    · obtain ⟨hkey, -⟩ | ⟨-, o', rfl, h'⟩ := h'
      · exact absurd hkey hne
      · obtain ⟨ho, hd, hraw⟩ := ih h h'
        exact ⟨by rw [ho], hd, hraw⟩

/-- The bytes of keys and values, in turn. -/
def rows (es : List (List UInt8 × List UInt8)) : List UInt8 :=
  es.flatMap fun e => e.1 ++ e.2

/-- The bytes of a key that is not the one searched, and of a value. -/
def OtherKey (key : List UInt8) (e : List UInt8 × List UInt8) : Prop :=
  ∃ k v, Item k e.1 ∧ Item v e.2 ∧ k ≠ .str key

theorem rows_cons (e : List UInt8 × List UInt8) (es : List (List UInt8 × List UInt8))
    (rest : List UInt8) : rows (e :: es) ++ rest = e.1 ++ (e.2 ++ (rows es ++ rest)) := by
  rw [rows, List.flatMap_cons, List.append_assoc, List.append_assoc]
  rfl

/-- The first entry under the key, behind others. -/
theorem entryIn_rows {before : List (List UInt8 × List UInt8)} {kb vb : List UInt8}
    (hbefore : ∀ e ∈ before, OtherKey key e) (hk : Item (.str key) kb) (hv : Item d vb)
    (n : Nat) (rest : List UInt8) :
    EntryIn key (before.length + (n + 1)) (rows before ++ (kb ++ (vb ++ rest)))
      ((rows before).length + kb.length) d vb := by
  induction before with
  | nil =>
    rw [List.length_nil, Nat.zero_add, rows, List.flatMap_nil, List.nil_append,
      List.length_nil, Nat.zero_add]
    exact .here hk hv
  | cons e before ih =>
    obtain ⟨k, v, hke, hve, hne⟩ := hbefore e List.mem_cons_self
    have hlater := ih fun x hx => hbefore x (List.mem_cons_of_mem _ hx)
    have hlen : (rows (e :: before)).length + kb.length
        = e.1.length + e.2.length + ((rows before).length + kb.length) := by
      rw [← List.append_nil (rows (e :: before)), rows_cons, List.append_nil,
        List.length_append, List.length_append]
      omega
    rw [rows_cons, hlen, List.length_cons, Nat.add_right_comm]
    exact .later hke hve hne hlater

/-- There is no entry under the key among others. -/
theorem no_entryIn_rows {es : List (List UInt8 × List UInt8)}
    (hes : ∀ e ∈ es, OtherKey key e) (rest : List UInt8) :
    ¬ EntryIn key es.length (rows es ++ rest) off d raw := by
  induction es generalizing off with
  | nil =>
    intro h
    cases h
  | cons e es ih =>
    intro h
    obtain ⟨k, v, hke, hve, hne⟩ := hes e List.mem_cons_self
    rw [rows_cons] at h
    have hvp : e.2 <+: (e.1 ++ (e.2 ++ (rows es ++ rest))).drop e.1.length := by
      rw [List.drop_left]
      exact List.prefix_append _ _
    obtain ⟨hkey, -⟩ | ⟨-, off', -, h⟩ :=
      (entryIn_succ hke (List.prefix_append _ _) hve hvp).1 h
    · exact hne hkey
    · rw [← List.drop_drop, List.drop_left, List.drop_left] at h
      exact ih (fun x hx => hes x (List.mem_cons_of_mem _ hx)) h

end Entries

theorem EntryIn.item {n : Nat} (h : EntryIn key n bs off d raw) : Item d raw := by
  induction h with
  | here _ hd => exact hd
  | later _ _ _ _ ih => exact ih

theorem Entry.item (h : Entry key bs off d raw) : Item d raw := by
  cases h with
  | intro _ h => exact h.item

theorem EntryIn.inside {n : Nat}
    (h : EntryIn key n bs off d raw) : off + raw.length ≤ bs.length := by
  induction h with
  | here _ _ =>
    simp only [List.length_append]
    omega
  | later _ _ _ _ ih =>
    simp only [List.length_append]
    omega

/-- The value of an entry stands behind the header of the map. -/
theorem Entry.inside (h : Entry key bs off d raw) : 1 ≤ off ∧ off + raw.length ≤ bs.length := by
  cases h with
  | intro hh h =>
    have hsize := head_size hh
    have hinside := h.inside
    rw [List.length_drop] at hinside
    omega

theorem Entry.of_str {s : List UInt8} (hitem : Item (.str s) bs) : ¬ Entry key bs off d raw := by
  intro h
  cases h with
  | intro hh _ =>
    obtain ⟨body, -, -, es, -, -, hd, -⟩ := hitem.behind hh (List.prefix_refl _)
    cases hd

theorem Entry.unique {raw' : List UInt8} {off' : Nat} {d' : Datum}
    (h : Entry key bs off d raw) (h' : Entry key bs off' d' raw') :
    off = off' ∧ d = d' ∧ raw = raw' := by
  cases h with
  | intro hh h =>
    cases h' with
    | intro hh' h' =>
      rw [hh] at hh'
      injection hh' with hh'
      injection hh' with hx hn
      injection hx with hx
      subst hx hn
      obtain ⟨hoff, hd, hraw⟩ := h.unique h'
      exact ⟨by rw [hoff], hd, hraw⟩

end Dynamod.Lib.MessagePack
