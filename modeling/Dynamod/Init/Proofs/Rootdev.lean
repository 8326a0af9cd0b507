/-
What a device that the scan of the output of `blkid` returns has to do
with the request.

# The scan

The output is a list of lines `device: KEY="value" ...`, of which 4096
bytes are read. The scan answers at the first line whose text, as far as
it is read, has the text that is searched for and whose device exists
(`firstHit`, `tryBlkidScan_eq`); a text that is found reaches over the
device, so that the device is that of the line.

# What is found

The text ends in the two quotes around the value, so it is found at an
attribute with this value, or between the end of a value and the next one.
For plain values only the first can be (`occurs_attributes`). Its key only
has to end in the key that was meant: `PARTUUID="x"` is found for
`UUID="x"`, and whether the answer is right hangs on the line it was found
on (`blkid_scans_sound_iff`).
-/
import Dynamod.Init.Rootdev

namespace Dynamod.Init.Rootdev

open Lib Ascii

variable {front key value piece : List UInt8} {b : UInt8}
  {deviceExists : List UInt8 → Bool}

-- ==== the output

structure Attribute where
  key : List UInt8
  value : List UInt8
  deriving DecidableEq

structure BlkidLine where
  device : List UInt8
  attributes : List Attribute
  deriving DecidableEq

variable {attributes : List Attribute} {l : BlkidLine}

/-- The blank before an attribute, and the attribute. -/
def Attribute.text (a : Attribute) : List UInt8 :=
  space :: (a.key ++ equals :: quote :: (a.value ++ [quote]))

def BlkidLine.text (l : BlkidLine) : List UInt8 :=
  l.device ++ colon :: l.attributes.flatMap Attribute.text

def blkidOutput (ls : List BlkidLine) : List UInt8 :=
  (ls.map BlkidLine.text).flatMap (· ++ [lineFeed])

/-- The line has an attribute `UUID` with this value. -/
def BlkidLine.HasUuid (l : BlkidLine) (value : List UInt8) : Prop :=
  ∃ a ∈ l.attributes, a.key = utf8 "UUID" ∧ a.value = value

/-- The line has an attribute `LABEL` with this value, up to the case of
the letters. -/
def BlkidLine.HasLabel (l : BlkidLine) (value : List UInt8) : Prop :=
  ∃ a ∈ l.attributes, a.key = utf8 "LABEL" ∧ SameLetters a.value value

/-- The parts of a line do not hold what stands between them. -/
structure BlkidLine.Clear (l : BlkidLine) : Prop where
  device : colon ∉ l.device ∧ quote ∉ l.device ∧ lineFeed ∉ l.device
  trimmed : trimBlanks l.device = l.device
  keys : ∀ a ∈ l.attributes, quote ∉ a.key ∧ lineFeed ∉ a.key
  values : ∀ a ∈ l.attributes, quote ∉ a.value ∧ lineFeed ∉ a.value

/-- The value is not taken for what stands between two values. -/
def PlainValue (value : List UInt8) : Prop :=
  quote ∉ value ∧ ¬ (value.head? = some space ∧ value.getLast? = some equals)

-- ==== where it is found

/-- What stands before the value of an attribute. -/
def opening (front key : List UInt8) : List UInt8 := front ++ space :: (key ++ [equals])

theorem quote_notMem_opening (hfront : quote ∉ front)
    (hkey : quote ∉ key) : quote ∉ opening front key := by
  have hsigns : quote ≠ space ∧ quote ≠ equals := by decide
  simp [opening, hfront, hkey, hsigns]

theorem text_cons (front : List UInt8) (a : Attribute) (attributes : List Attribute) :
    front ++ (a :: attributes).flatMap Attribute.text
      = opening front a.key ++ quote ::
        (a.value ++ quote :: attributes.flatMap Attribute.text) := by
  simp [opening, Attribute.text]

theorem ends_key {a : List UInt8} (hkey : space ∉ key)
    (h : key ++ [equals] <:+ opening front a) : key <:+ a := by
  obtain ⟨before, e⟩ := h
  rw [opening, ← List.append_assoc, ← List.cons_append, ← List.append_assoc] at e
  exact suffix_behind hkey ⟨before, List.append_cancel_right e⟩

/-- Behind a value there is no plain value up to the next quote. -/
theorem not_between (hvalue : PlainValue value) (hkeys : ∀ a ∈ attributes, quote ∉ a.key) :
    ¬ value ++ [quote] <+: attributes.flatMap Attribute.text := by
  intro h
  cases attributes with
  | nil =>
    rw [List.flatMap_nil, List.prefix_nil] at h
    exact absurd h (by simp)
  | cons b attributes =>
    have hopen := quote_notMem_opening List.not_mem_nil (hkeys b List.mem_cons_self)
    rw [← List.nil_append (List.flatMap _ _), text_cons, terminated_front_iff hvalue.1 hopen] at h
    apply hvalue.2
    rw [h, opening, List.nil_append]
    exact ⟨rfl, by rw [← List.cons_append, List.getLast?_concat]⟩

/-- The text is found at an attribute whose key ends in the key that is
meant. -/
theorem occurs_attributes (hkey : quote ∉ key ∧ space ∉ key) (hvalue : PlainValue value)
    (hfront : quote ∉ front)
    (hkeys : ∀ a ∈ attributes, quote ∉ a.key) (hvalues : ∀ a ∈ attributes, quote ∉ a.value)
    (h : key ++ equals :: quote :: (value ++ [quote])
      <:+: front ++ attributes.flatMap Attribute.text) :
    ∃ a ∈ attributes, key <:+ a.key ∧ a.value = value := by
  have hneedle : key ++ equals :: quote :: (value ++ [quote])
      = (key ++ [equals]) ++ quote :: (value ++ [quote]) := by simp
  have hleft : quote ∉ key ++ [equals] := by
    rw [List.mem_append, List.mem_singleton]
    exact fun hin => hin.elim hkey.1 (by decide)
  rw [hneedle] at h
  induction attributes generalizing front with
  | nil =>
    rw [List.flatMap_nil, List.append_nil] at h
    exact absurd (h.subset (by simp)) hfront
  | cons a attributes ih =>
    have ha := List.mem_cons_self (a := a) (l := attributes)
    have hrest : ∀ b ∈ attributes, b ∈ a :: attributes := fun b => List.mem_cons_of_mem a
    rw [text_cons, occurs_across hleft (quote_notMem_opening hfront (hkeys a ha))] at h
    rcases h with ⟨hends, hval⟩ | h
    · -- at the quote that opens the value
      rw [terminated_front_iff hvalue.1 (hvalues a ha)] at hval
      exact ⟨a, ha, ends_key hkey.2 hends, hval.symm⟩
    · rw [occurs_across hleft (hvalues a ha)] at h
      rcases h with ⟨-, hval⟩ | h
      · -- at the quote that closes it
        exact absurd hval (not_between hvalue fun b hb => hkeys b (hrest b hb))
      · rw [← List.nil_append (List.flatMap _ _)] at h
        obtain ⟨b, hb, hfound⟩ := ih List.not_mem_nil (fun b hb => hkeys b (hrest b hb))
          (fun b hb => hvalues b (hrest b hb)) h
        exact ⟨b, hrest b hb, hfound⟩

/-- An attribute whose key ends in the one that is meant has the text. -/
theorem occurs_of_attribute (h : ∃ a ∈ attributes, key <:+ a.key ∧ a.value = value) :
    key ++ equals :: quote :: (value ++ [quote])
      <:+: front ++ attributes.flatMap Attribute.text := by
  obtain ⟨a, ha, ⟨before, hkey⟩, rfl⟩ := h
  have hin : key ++ equals :: quote :: (a.value ++ [quote]) <:+: a.text :=
    ⟨space :: before, [], by simp [Attribute.text, ← hkey]⟩
  obtain ⟨as, bs, rfl⟩ := List.append_of_mem ha
  have hall : a.text <:+: (as ++ a :: bs).flatMap Attribute.text :=
    ⟨as.flatMap Attribute.text, bs.flatMap Attribute.text, by simp⟩
  exact (hin.trans hall).trans (List.suffix_append front _).isInfix

-- ==== up to some folding

/-- A folding of letters leaves the bytes below them alone. -/
def FoldsLetters (f : UInt8 → UInt8) : Prop := ∀ {b c : UInt8}, b < 65 → (f c = b ↔ c = b)

section Fold

variable {f : UInt8 → UInt8} (hf : FoldsLetters f)

include hf

theorem FoldsLetters.mem_map (hb : b < 65) {text : List UInt8} : b ∈ text.map f ↔ b ∈ text := by
  simp only [List.mem_map, hf hb, exists_eq_right]

theorem FoldsLetters.map_eq_some (hb : b < 65) {o : Option UInt8} :
    o.map f = some b ↔ o = some b := by
  simp only [Option.map_eq_some_iff, hf hb, exists_eq_right]

theorem FoldsLetters.plainValue (h : PlainValue value) : PlainValue (value.map f) := by
  unfold PlainValue
  rw [hf.mem_map (by decide), List.head?_map, List.getLast?_map, hf.map_eq_some (by decide),
    hf.map_eq_some (by decide)]
  exact h

theorem FoldsLetters.eq_self (hb : b < 65) : f b = b := (hf hb).2 rfl

omit hf in
/-- An attribute with its letters folded. -/
def Attribute.fold (f : UInt8 → UInt8) (a : Attribute) : Attribute :=
  { key := a.key.map f, value := a.value.map f }

theorem FoldsLetters.map_text (l : BlkidLine) : l.text.map f = (l.device.map f ++ [colon])
    ++ (l.attributes.map (Attribute.fold f)).flatMap Attribute.text := by
  have hcolon : f colon = colon := hf.eq_self (by decide)
  have hspace : f space = space := hf.eq_self (by decide)
  have hequals : f equals = equals := hf.eq_self (by decide)
  have hquote : f quote = quote := hf.eq_self (by decide)
  simp [BlkidLine.text, Attribute.text, Attribute.fold, List.map_flatMap, List.flatMap_map,
    hcolon, hspace, hequals, hquote]

/-- A line is found up to the folding exactly if it has the value up to
it, under a key that ends in the one that is meant. -/
theorem FoldsLetters.found (hkey : quote ∉ key ∧ space ∉ key) (hvalue : PlainValue value)
    (hl : l.Clear) : (key ++ equals :: quote :: (value ++ [quote])).map f <:+: l.text.map f
      ↔ ∃ a ∈ l.attributes, key.map f <:+ a.key.map f ∧ a.value.map f = value.map f := by
  have hquote : quote < 65 := by decide
  have hneedle : (key ++ equals :: quote :: (value ++ [quote])).map f
      = key.map f ++ equals :: quote :: (value.map f ++ [quote]) := by
    simp [hf.eq_self hquote, hf.eq_self (b := equals) (by decide)]
  have hfront : quote ∉ l.device.map f ++ [colon] := by
    rw [List.mem_append, hf.mem_map hquote, List.mem_singleton]
    exact fun hin => hin.elim hl.device.2.1 (by decide)
  have hfolded : (∃ b ∈ l.attributes.map (Attribute.fold f),
        key.map f <:+ b.key ∧ b.value = value.map f)
      ↔ ∃ a ∈ l.attributes, key.map f <:+ a.key.map f ∧ a.value.map f = value.map f := by
    simp [Attribute.fold]
  rw [hneedle, hf.map_text, ← hfolded]
  refine ⟨fun h => ?_, occurs_of_attribute⟩
  refine occurs_attributes ⟨fun hin => hkey.1 ((hf.mem_map hquote).1 hin),
    fun hin => hkey.2 ((hf.mem_map (by decide)).1 hin)⟩ (hf.plainValue hvalue) hfront
    (fun b hb hin => ?_) (fun b hb hin => ?_) h
  · obtain ⟨a, ha, rfl⟩ := List.mem_map.1 hb
    exact (hl.keys a ha).1 ((hf.mem_map hquote).1 hin)
  · obtain ⟨a, ha, rfl⟩ := List.mem_map.1 hb
    exact (hl.values a ha).1 ((hf.mem_map hquote).1 hin)

end Fold

theorem foldsLetters_toLower : FoldsLetters toLower := toLower_eq_iff

theorem foldsLetters_id : FoldsLetters id := fun _ => Iff.rfl

-- ==== the scan

/-- What stands before the first colon of a line that is read beyond its
device. -/
theorem takeWhile_device (hl : l.Clear) (hpiece : piece <+: l.text) (hcolon : colon ∈ piece) :
    piece.takeWhile (fun c => c ≠ colon) = l.device := by
  rcases List.prefix_or_prefix_of_prefix hpiece (List.prefix_append l.device _) with
    hin | ⟨rest, rfl⟩
  · exact absurd (hin.subset hcolon) hl.device.1
  · rw [BlkidLine.text, List.prefix_append_right_inj] at hpiece
    cases rest with
    | nil => exact absurd (by simpa using hcolon) hl.device.1
    | cons c rest =>
      obtain ⟨rfl, -⟩ := List.cons_prefix_cons.1 hpiece
      rw [List.takeWhile_append_of_pos, List.takeWhile_cons_of_neg, List.append_nil]
      · simp
      · intro c hc
        exact decide_eq_true fun e => hl.device.1 (e ▸ hc)

/-- A line that is read up to a quote is read beyond its colon. -/
theorem colon_mem_of_quote (hl : l.Clear)
    (hpiece : piece <+: l.text) (hquote : quote ∈ piece) : colon ∈ piece := by
  rcases List.prefix_or_prefix_of_prefix hpiece (List.prefix_append l.device _) with
    hin | ⟨rest, rfl⟩
  · exact absurd (hin.subset hquote) hl.device.2.1
  · rw [BlkidLine.text, List.prefix_append_right_inj] at hpiece
    cases rest with
    | nil => exact absurd (by simpa using hquote) hl.device.2.1
    | cons c rest =>
      obtain ⟨rfl, -⟩ := List.cons_prefix_cons.1 hpiece
      exact List.mem_append_right _ List.mem_cons_self

/-- The device is one that can be returned. -/
def Present (deviceExists : List UInt8 → Bool) (l : BlkidLine) : Bool :=
  utf8 "/dev/" <+: l.device ∧ deviceExists l.device

/-- What a line answers on which the text was found. -/
theorem deviceOnLine_eq (hl : l.Clear) (hpiece : piece <+: l.text) (hquote : quote ∈ piece) :
    deviceOnLine deviceExists piece
      = if Present deviceExists l then
          some (if pathBufLen - 1 < l.device.length then none else some l.device)
        else none := by
  have hcolon := colon_mem_of_quote hl hpiece hquote
  have hlen : utf8 "/dev/" <+: l.device → 5 ≤ l.device.length := fun h => h.length_le
  unfold deviceOnLine Present
  rw [if_pos hcolon, takeWhile_device hl hpiece hcolon, hl.trimmed]
  refine if_congr ?_ rfl rfl
  rw [decide_eq_true_iff]
  exact ⟨And.right, fun h => ⟨hlen h.1, h⟩⟩

/-- The first line whose text has, as far as it is read, what is searched
for and whose device exists. -/
def firstHit (found deviceExists : List UInt8 → Bool) (n : Nat) (ls : List BlkidLine) :
    Option BlkidLine :=
  ((ls.zip (cutLines n (ls.map BlkidLine.text))).find? fun p =>
    found p.2 && Present deviceExists p.1).map Prod.fst

/-- The scan answers with the device of that line, if it is not too
long. -/
theorem scanLines_cutLines {found : List UInt8 → Bool}
    (hfound : ∀ piece, found piece = true → quote ∈ piece) {ls : List BlkidLine}
    (hls : ∀ l ∈ ls, l.Clear) (n : Nat) :
    scanLines found deviceExists (cutLines n (ls.map BlkidLine.text))
      = (firstHit found deviceExists n ls).bind fun l =>
          if pathBufLen - 1 < l.device.length then none else some l.device := by
  induction ls generalizing n with
  | nil => rfl
  | cons l ls ih =>
    have hrest := ih (fun l' hl' => hls l' (List.mem_cons_of_mem _ hl'))
      (n - (l.text.length + 1))
    unfold firstHit at hrest ⊢
    rw [List.map_cons, cutLines, List.zip_cons_cons, List.find?_cons, scanLines]
    cases hin : found (l.text.take n) with
    | false =>
      rw [if_neg Bool.false_ne_true, Bool.false_and]
      exact hrest
    | true =>
      rw [if_pos rfl, Bool.true_and, deviceOnLine_eq (hls l List.mem_cons_self)
        (List.take_prefix n _) (hfound _ hin)]
      cases hpresent : Present deviceExists l with
      | false => exact hrest
      | true => rfl

/-- An empty line is passed over. -/
theorem scanLines_filter {found : List UInt8 → Bool} (hnil : found [] = false)
    (lines : List (List UInt8)) : scanLines found deviceExists
    (lines.filter fun line => line ≠ [])
      = scanLines found deviceExists lines := by
  induction lines with
  | nil => rfl
  | cons line lines ih =>
    by_cases hline : line = []
    · rw [hline, List.filter_cons_of_neg (by simp), ih, scanLines, hnil]
      rfl
    · rw [List.filter_cons_of_pos (by simpa using hline), scanLines, scanLines, ih]

/-- A clear line is one line. -/
theorem BlkidLine.Clear.lineFeed_notMem (hl : l.Clear) : lineFeed ∉ l.text := by
  have hattr : ∀ a ∈ l.attributes, lineFeed ∉ a.text := by
    intro a ha
    have hsigns : lineFeed ≠ space ∧ lineFeed ≠ equals ∧ lineFeed ≠ quote := by decide
    simp [Attribute.text, hl.keys a ha, hl.values a ha, hsigns]
  have hcolon : lineFeed ≠ colon := by decide
  simpa [BlkidLine.text, hl.device, hcolon] using hattr

section Scan

variable {key : String} {search : List UInt8 → List UInt8 → Bool} {f : UInt8 → UInt8}
  (hf : FoldsLetters f)
  (hsearch : ∀ needle line, search needle line = true ↔ needle.map f <:+: line.map f)
  {ls : List BlkidLine} (hls : ∀ l ∈ ls, l.Clear)

include hf hsearch

/-- The text is found only in what has a quote. -/
theorem quote_of_found (h : search (needleFor key value) piece = true) : quote ∈ piece := by
  have hmem : quote ∈ (needleFor key value).map f :=
    (hf.mem_map (by decide)).2 (by simp [needleFor])
  exact (hf.mem_map (by decide)).1 (((hsearch _ _).1 h).subset hmem)

include hls

/-- The whole of a scan: a text that fits its buffer is searched for, and
the first line answers. -/
theorem tryBlkidScan_eq (value : List UInt8) :
    tryBlkidScan key search deviceExists (some (blkidOutput ls)) value
      = if 300 < (needleFor key value).length then none
        else (firstHit (search (needleFor key value)) deviceExists 4096 ls).bind fun l =>
          if pathBufLen - 1 < l.device.length then none else some l.device := by
  have hquote : ∀ piece, search (needleFor key value) piece = true → quote ∈ piece :=
    fun piece => quote_of_found hf hsearch
  have hnil : search (needleFor key value) [] = false :=
    Bool.eq_false_iff.2 fun h => List.not_mem_nil (hquote [] h)
  have hlines : ∀ l ∈ ls.map BlkidLine.text, lineFeed ∉ l := by
    intro text htext
    obtain ⟨l, hl, rfl⟩ := List.mem_map.1 htext
    exact (hls l hl).lineFeed_notMem
  unfold tryBlkidScan
  rw [Option.bind_some]
  dsimp only
  by_cases hlong : 300 < (needleFor key value).length
  · rw [if_pos hlong, if_pos hlong, ite_self]
  rw [if_neg hlong, if_neg hlong, ← scanLines_cutLines hquote hls, ← scanLines_filter hnil,
    ← scanLines_filter hnil (cutLines _ _), ← tokens_take_lines hlines]
  split
  · next hempty =>
    rw [← blkidOutput, hempty]
    rfl
  · rfl

/-- The device that a scan returns has a property exactly if it has it
where the first line is one that can be returned. -/
theorem scan_sound_iff (value : List UInt8) (P : List UInt8 → Prop) :
    (∀ d, tryBlkidScan key search deviceExists (some (blkidOutput ls)) value = some d → P d)
      ↔ ∀ l, firstHit (search (needleFor key value)) deviceExists 4096 ls = some l →
        (needleFor key value).length ≤ 300 → l.device.length < pathBufLen → P l.device := by
  rw [tryBlkidScan_eq hf hsearch hls]
  constructor
  · intro h l hhit hneedle hpath
    refine h l.device ?_
    rw [if_neg (Nat.not_lt.2 hneedle), hhit, Option.bind_some,
      if_neg (Nat.not_lt.2 (Nat.le_sub_one_of_lt hpath))]
  · intro h d hd
    split at hd
    · cases hd
    next hneedle =>
    obtain ⟨l, hhit, hd⟩ := Option.bind_eq_some_iff.1 hd
    split at hd
    · cases hd
    next hpath =>
    cases hd
    refine h l hhit (Nat.not_lt.1 hneedle) ?_
    rw [pathBufLen] at hpath ⊢
    omega

end Scan

-- ==== the two keys

theorem indexOf_iff (needle line : List UInt8) :
    indexOf needle line = true ↔ needle.map id <:+: line.map id := by
  simp [indexOf]

theorem indexOfIgnoreCase_iff (needle line : List UInt8) : indexOfIgnoreCase needle line = true
    ↔ needle.map toLower <:+: line.map toLower := by
  simp [indexOfIgnoreCase]

/-- On clear lines the scans answer with devices that have what was asked
for exactly if the device of the first line that is hit has it. A plain
request hits the lines that have its value under a key that ends in the
one that is meant. -/
theorem blkid_scans_sound_iff (deviceExists : List UInt8 → Bool) (ls : List BlkidLine)
    (hls : ∀ l ∈ ls, l.Clear) (value : List UInt8) :
    ((∀ d, tryBlkidUuidDevice deviceExists (some (blkidOutput ls)) value = some d →
          ∃ l ∈ ls, l.device = d ∧ l.HasUuid value)
        ↔ ∀ l, firstHit (indexOf (needleFor "UUID" value)) deviceExists 4096 ls = some l →
          (needleFor "UUID" value).length ≤ 300 → l.device.length < pathBufLen →
          ∃ l' ∈ ls, l'.device = l.device ∧ l'.HasUuid value)
      ∧ ((∀ d, tryBlkidScanLabelDevice deviceExists (some (blkidOutput ls)) value = some d →
          ∃ l ∈ ls, l.device = d ∧ l.HasLabel value)
        ↔ ∀ l, firstHit (indexOfIgnoreCase (needleFor "LABEL" value)) deviceExists 4096 ls
            = some l → (needleFor "LABEL" value).length ≤ 300 → l.device.length < pathBufLen →
          ∃ l' ∈ ls, l'.device = l.device ∧ l'.HasLabel value)
      ∧ (PlainValue value → ∀ l ∈ ls, (indexOf (needleFor "UUID" value) l.text = true
            ↔ ∃ a ∈ l.attributes, utf8 "UUID" <:+ a.key ∧ a.value = value)
          ∧ (indexOfIgnoreCase (needleFor "LABEL" value) l.text = true
            ↔ ∃ a ∈ l.attributes, (utf8 "LABEL").map toLower <:+ a.key.map toLower
              ∧ SameLetters a.value value)) := by
  refine ⟨scan_sound_iff foldsLetters_id indexOf_iff hls value _,
    scan_sound_iff foldsLetters_toLower indexOfIgnoreCase_iff hls value _,
    fun hvalue l hl => ⟨?_, ?_⟩⟩
  · rw [indexOf_iff, needleFor, foldsLetters_id.found (by decide) hvalue (hls l hl)]
    simp only [List.map_id]
  · rw [indexOfIgnoreCase_iff]
    exact foldsLetters_toLower.found (by decide) hvalue (hls l hl)

/-- A disk whose partition carries the name that is asked for, before the
disk that is meant. -/
def twoDisks : List BlkidLine :=
  [{ device := utf8 "/dev/sda1"
     attributes := [⟨utf8 "LABEL", utf8 "data"⟩, ⟨utf8 "UUID", utf8 "1111"⟩,
       ⟨utf8 "PARTLABEL", utf8 "ROOT"⟩, ⟨utf8 "PARTUUID", utf8 "2222"⟩] },
   { device := utf8 "/dev/sdb1"
     attributes := [⟨utf8 "LABEL", utf8 "root"⟩, ⟨utf8 "UUID", utf8 "2222"⟩] }]

theorem twoDisks_clear : ∀ l ∈ twoDisks, l.Clear := by
  intro l hl
  rcases List.mem_pair.1 hl with rfl | rfl
  · exact ⟨by decide, by decide, by decide, by decide⟩
  · exact ⟨by decide, by decide, by decide, by decide⟩

/-- Where the disk that is meant comes first, both scans are right. -/
theorem meant_disk_first :
    (∀ d, tryBlkidUuidDevice (fun _ => true) (some (blkidOutput twoDisks.reverse))
          (utf8 "2222") = some d → ∃ l ∈ twoDisks.reverse, l.device = d ∧ l.HasUuid (utf8 "2222"))
      ∧ ∀ d, tryBlkidScanLabelDevice (fun _ => true) (some (blkidOutput twoDisks.reverse))
          (utf8 "root") = some d →
        ∃ l ∈ twoDisks.reverse, l.device = d ∧ l.HasLabel (utf8 "root") := by
  have hclear : ∀ l ∈ twoDisks.reverse, l.Clear := fun l hl =>
    twoDisks_clear l (List.mem_reverse.1 hl)
  refine ⟨(blkid_scans_sound_iff (fun _ => true) _ hclear (utf8 "2222")).1.2 ?_,
    (blkid_scans_sound_iff (fun _ => true) _ hclear (utf8 "root")).2.1.2 ?_⟩
  · intro l hl _ _
    obtain rfl := Option.some.inj (hl.symm.trans (by decide :
      firstHit _ _ _ _ = twoDisks.reverse.head?))
    unfold BlkidLine.HasUuid
    decide
  · intro l hl _ _
    obtain rfl := Option.some.inj (hl.symm.trans (by decide :
      firstHit _ _ _ _ = twoDisks.reverse.head?))
    unfold BlkidLine.HasLabel SameLetters
    decide

/-- Asked for the names of `/dev/sdb1`, the scans return the disk whose
partition has them. -/
theorem partition_taken_for_root : (∀ l ∈ twoDisks, l.Clear)
    ∧ tryBlkidUuidDevice (fun _ => true) (some (blkidOutput twoDisks)) (utf8 "2222")
      = some (utf8 "/dev/sda1")
    ∧ tryBlkidScanLabelDevice (fun _ => true) (some (blkidOutput twoDisks)) (utf8 "root")
      = some (utf8 "/dev/sda1")
    ∧ ∀ l ∈ twoDisks, l.device = utf8 "/dev/sda1" →
      ¬ l.HasUuid (utf8 "2222") ∧ ¬ l.HasLabel (utf8 "root") := by
  refine ⟨twoDisks_clear, by decide, by decide, ?_⟩
  unfold BlkidLine.HasUuid BlkidLine.HasLabel SameLetters
  decide

end Dynamod.Init.Rootdev
