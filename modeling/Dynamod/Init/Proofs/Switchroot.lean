/-
What the options of `rootflags=` become.

# The options

`parseRootFlags_exact` reads the result off the options alone, without the
loop or its table: which flags are set, and that the data is the join of
options that were passed on, all of them where they fit. The loop is
followed with what holds of the options seen so far (`Parsed`). The array
holds the join of the kept options and else the bytes that were there
before, as an equation between memories, so no write is outside it.

# The call

`mountRootDevice_spec` follows the texts into the call of `mount`.
-/
import Dynamod.Init.Switchroot

namespace Dynamod.Init.Switchroot

open Lib Iso9660

-- ==== the flags

/-- The flag is set. -/
def Has (flags flag : UInt32) : Prop := flags &&& flag ≠ 0

instance (flags flag : UInt32) : Decidable (Has flags flag) :=
  inferInstanceAs (Decidable (flags &&& flag ≠ 0))

section Flags

variable {flags flag other : UInt32}

private theorem and_or_right (a b c : UInt32) : (a ||| b) &&& c = a &&& c ||| b &&& c := by
  apply UInt32.toBitVec_inj.1
  exact BitVec.and_or_distrib_right

/-- Setting a flag leaves the others. -/
theorem has_or : Has (flags ||| other) flag ↔ Has flags flag ∨ Has other flag := by
  unfold Has
  rw [and_or_right, Ne, UInt32.or_eq_zero_iff, not_and_or]

theorem not_has_clear : ¬ Has (flags &&& ~~~flag) flag := by
  unfold Has
  rw [UInt32.and_assoc, UInt32.not_and_self, UInt32.and_zero, not_not]

theorem has_clear (h : ¬ Has other flag) : Has (flags &&& ~~~other) flag ↔ Has flags flag := by
  have hother : ~~~other &&& flag = flag := by
    calc ~~~other &&& flag = other &&& flag ||| ~~~other &&& flag := by
          rw [not_not.1 h, UInt32.zero_or]
      _ = (other ||| ~~~other) &&& flag := (and_or_right ..).symm
      _ = flag := by rw [UInt32.or_not_self, UInt32.neg_one_and]
  unfold Has
  rw [UInt32.and_assoc, hother]

end Flags

section Options

variable {opt : List UInt8} {flag : UInt32} {row : String × UInt32}

/-- No two rows of the table share a bit. -/
theorem flagOptions_separate :
    ∀ row ∈ flagOptions, ∀ row' ∈ flagOptions, Has row'.2 row.2 ↔ row' = row := by
  decide

theorem flagOptions_names :
    ∀ row ∈ flagOptions, ∀ row' ∈ flagOptions, row'.1 = row.1 → row' = row := by
  decide

theorem rw_no_flagOption : ∀ row ∈ flagOptions, row.1 ≠ "rw" := by
  decide

/-- A flag comes from its row of the table. -/
theorem flagOf_some (h : flagOf opt = some flag) :
    ∃ row ∈ flagOptions, utf8 row.1 = opt ∧ row.2 = flag := by
  obtain ⟨row, hfind, hflag⟩ := Option.map_eq_some_iff.1 h
  have hname := List.find?_some (p := fun row : String × UInt32 => decide (utf8 row.1 = opt)) hfind
  exact ⟨row, List.mem_of_find?_eq_some hfind, of_decide_eq_true hname, hflag⟩

/-- An option without a flag is in no row. -/
theorem flagOf_none (h : flagOf opt = none) (hrow : row ∈ flagOptions) : opt ≠ utf8 row.1 := by
  intro e
  have hall := List.find?_eq_none.1 (Option.map_eq_none_iff.1 h) row hrow
  exact hall (decide_eq_true e.symm)

/-- The flag of an option is the one of its row. -/
theorem flagOf_has (h : flagOf opt = some flag) (hrow : row ∈ flagOptions) :
    Has flag row.2 ↔ opt = utf8 row.1 := by
  obtain ⟨row', hrow', rfl, rfl⟩ := flagOf_some h
  rw [flagOptions_separate row hrow row' hrow']
  refine ⟨fun e => e ▸ rfl, fun e => ?_⟩
  exact flagOptions_names row hrow row' hrow' (utf8_injective e)

end Options

/-- The options that decide between reading and writing. -/
def isMode (opt : List UInt8) : Bool := opt = utf8 "ro" ∨ opt = utf8 "rw"

/-- The options that are passed on. -/
def unrecognised (opt : List UInt8) : Bool :=
  opt ∉ ["rw", "ro", "nosuid", "nodev", "noexec", "sync", "noatime", "nodiratime", "relatime",
    "strictatime"].map utf8

/-- The code passes on what it finds in neither place. -/
theorem unrecognised_iff {opt : List UInt8} :
    unrecognised opt = true ↔ opt ≠ utf8 "rw" ∧ flagOf opt = none := by
  rw [unrecognised, flagOf, Option.map_eq_none_iff, List.find?_eq_none, decide_eq_true_iff]
  simp [flagOptions, eq_comm]

private theorem filter_concat_neg {p : List UInt8 → Bool} {seen : List (List UInt8)}
    {opt : List UInt8} (h : ¬ p opt = true) : (seen ++ [opt]).filter p = seen.filter p := by
  rw [List.filter_append, List.filter_singleton, Bool.eq_false_iff.2 h]
  exact List.append_nil _

/-- The flags that these options stand for. -/
structure FlagsOf (seen : List (List UInt8)) (flags : UInt32) : Prop where
  readOnly : Has flags msRdonly ↔ (seen.filter isMode).getLast? ≠ some (utf8 "rw")
  others : ∀ row ∈ flagOptions, row.1 ≠ "ro" → (Has flags row.2 ↔ utf8 row.1 ∈ seen)

namespace FlagsOf

variable {seen : List (List UInt8)} {flags flag : UInt32} {opt : List UInt8}

private theorem last_mode (h : isMode opt = true) :
    ((seen ++ [opt]).filter isMode).getLast? = some opt := by
  rw [List.filter_append, List.filter_singleton, h]
  exact List.getLast?_concat

private theorem no_mode (hro : opt ≠ utf8 "ro") (hrw : opt ≠ utf8 "rw") :
    (seen ++ [opt]).filter isMode = seen.filter isMode :=
  filter_concat_neg fun h => (of_decide_eq_true h).elim hro hrw

private theorem ro_mem : ("ro", msRdonly) ∈ flagOptions := List.mem_cons_self

/-- Without options the root is read only. -/
theorem nil : FlagsOf [] msRdonly := by
  refine ⟨by decide, fun row hrow hro => iff_of_false ?_ List.not_mem_nil⟩
  rw [flagOptions_separate row hrow _ ro_mem]
  exact fun e => hro (e ▸ rfl)

/-- `rw` takes the flag away. -/
theorem clear (h : FlagsOf seen flags) :
    FlagsOf (seen ++ [utf8 "rw"]) (flags &&& ~~~msRdonly) := by
  constructor
  · rw [last_mode (by decide)]
    exact iff_of_false not_has_clear (not_not.2 rfl)
  · intro row hrow hro
    have hother : ¬ Has msRdonly row.2 := by
      rw [flagOptions_separate row hrow _ ro_mem]
      exact fun e => hro (e ▸ rfl)
    have hname : utf8 row.1 ≠ utf8 "rw" := fun e => rw_no_flagOption row hrow (utf8_injective e)
    rw [has_clear hother, h.others row hrow hro, List.mem_append, List.mem_singleton]
    exact (or_iff_left hname).symm

/-- An option of the table sets its flag. -/
theorem set (h : FlagsOf seen flags) (hflag : flagOf opt = some flag) :
    FlagsOf (seen ++ [opt]) (flags ||| flag) := by
  constructor
  · rw [has_or, flagOf_has hflag ro_mem]
    by_cases hro : opt = utf8 "ro"
    · rw [hro, last_mode (by decide)]
      refine iff_of_true (.inr rfl) fun e => ?_
      exact absurd (utf8_injective (Option.some.inj e)) (by decide)
    · obtain ⟨row, hrow, hname, -⟩ := flagOf_some hflag
      have hrw : opt ≠ utf8 "rw" := fun e =>
        rw_no_flagOption row hrow (utf8_injective (hname.trans e))
      rw [no_mode hro hrw, ← h.readOnly]
      exact or_iff_left hro
  · intro row hrow hro
    rw [has_or, flagOf_has hflag hrow, h.others row hrow hro, List.mem_append,
      List.mem_singleton, eq_comm]

/-- An option that is no flag leaves the flags. -/
theorem pass (h : FlagsOf seen flags) (hrw : opt ≠ utf8 "rw") (hnone : flagOf opt = none) :
    FlagsOf (seen ++ [opt]) flags := by
  constructor
  · rw [no_mode (flagOf_none hnone ro_mem) hrw, h.readOnly]
  · intro row hrow hro
    rw [h.others row hrow hro, List.mem_append, List.mem_singleton]
    exact (or_iff_left (flagOf_none hnone hrow).symm).symm

end FlagsOf

-- ==== the data

/-- Options as the text for the driver. -/
def join (opts : List (List UInt8)) : List UInt8 := [Ascii.comma].intercalate opts

/-- The array and its length, after these options were to be passed on and
`kept` were. -/
structure Passed (undef : Mem) (opts kept : List (List UInt8)) (r : ParsedFlags) : Prop where
  sublist : kept.Sublist opts
  buffer : r.dataBuf = store undef 0 (join kept)
  length : r.dataLen = (join kept).length
  short : r.dataLen ≤ 255
  full : (join opts).length ≤ 254 → kept = opts

section Data

variable {undef : Mem} {opts kept : List (List UInt8)} {r : ParsedFlags} {opt : List UInt8}

/-- The kept options with the comma before a further one. -/
private def lead (kept : List (List UInt8)) : List UInt8 :=
  if kept = [] then [] else join kept ++ [Ascii.comma]

private theorem join_kept_concat (kept : List (List UInt8)) (opt : List UInt8) :
    join (kept ++ [opt]) = lead kept ++ opt := by
  unfold join lead
  split
  · next h =>
    rw [h]
    exact List.intercalate_singleton
  · next h =>
    rw [join_concat _ h, join, List.append_assoc]
    rfl

private theorem length_lead_le (kept : List (List UInt8)) : (join kept).length ≤
    (lead kept).length
    ∧ (lead kept).length ≤ (join kept).length + 1 := by
  unfold lead
  split
  · next h =>
    rw [h]
    exact ⟨Nat.zero_le _, Nat.zero_le _⟩
  · rw [List.length_append]
    exact ⟨Nat.le_add_right .., Nat.le_refl _⟩

/-- A comma is written unless nothing was kept. -/
private theorem separate_spec (hkept : ∀ o ∈ kept, o ≠ [])
    (hbuf : r.dataBuf = store undef 0 (join kept)) (hlen : r.dataLen = (join kept).length)
    (hroom : r.dataLen < 256) :
    separate r = .ok ⟨r.flags, store undef 0 (lead kept), (lead kept).length⟩ := by
  unfold separate lead
  have hiff : r.dataLen > 0 ↔ kept ≠ [] := by
    rw [hlen, gt_iff_lt, List.length_pos_iff, Ne, join, join_eq_nil_iff _ hkept]
  by_cases hnil : kept = []
  · have hjoin : join kept = [] := hnil ▸ List.intercalate_nil
    rw [if_neg (mt hiff.1 (not_not.2 hnil)), if_pos hnil]
    rw [hjoin] at hbuf hlen
    cases r
    cases hbuf
    cases hlen
    rfl
  · rw [if_pos (hiff.2 hnil), if_neg hnil, Slice.write_eq hroom]
    rw [addWord_eq (by omega), store_append, hbuf, hlen, List.length_append]
    rfl

/-- Where there is room, the option joins the others. -/
theorem passOn_room (hkept : ∀ o ∈ kept, o ≠ []) (hbuf : r.dataBuf = store undef 0 (join kept))
    (hlen : r.dataLen = (join kept).length) (hroom : r.dataLen + opt.length + 1 < 256) :
    passOn r opt = .ok ⟨r.flags, store undef 0 (join (kept ++ [opt])),
      (join (kept ++ [opt])).length⟩ := by
  have harray : dataBufArray.len = 256 := rfl
  have hlead := length_lead_le kept
  unfold passOn
  rw [addWord_eq (by omega)]
  show (addWord (r.dataLen + opt.length) 1).bind _ = _
  rw [addWord_eq (by omega)]
  show (if r.dataLen + opt.length + 1 < dataBufArray.len then _ else _) = _
  rw [if_pos (by omega), separate_spec hkept hbuf hlen (by omega)]
  show (dataBufArray.write (store undef 0 (lead kept)) (lead kept).length opt).bind _ = _
  rw [Slice.write_eq (by omega)]
  show (addWord (lead kept).length opt.length).bind _ = _
  rw [addWord_eq (by omega), join_kept_concat, store_append, List.length_append]
  rfl

/-- An option that does not fit is dropped. -/
theorem passOn_no_room (hlen : opt.length < 2 ^ 63) (hshort : r.dataLen ≤ 255)
    (hroom : ¬ r.dataLen + opt.length + 1 < 256) : passOn r opt = .ok r := by
  unfold passOn
  rw [addWord_eq (by omega)]
  show (addWord (r.dataLen + opt.length) 1).bind _ = _
  rw [addWord_eq (by omega)]
  exact if_neg hroom

/-- An option is kept if it fits with its comma and a zero. -/
theorem Passed.passOn (h : Passed undef opts kept r) (hopts : ∀ o ∈ opts, o ≠ [])
    (hlen : opt.length < 2 ^ 63) : ∃ r' kept', passOn r opt = .ok r' ∧ r'.flags = r.flags
      ∧ Passed undef (opts ++ [opt]) kept' r' := by
  have hlead := length_lead_le opts
  have hjoin : (join (opts ++ [opt])).length = (lead opts).length + opt.length := by
    rw [join_kept_concat, List.length_append]
  by_cases hroom : r.dataLen + opt.length + 1 < 256
  · have hkept : ∀ o ∈ kept, o ≠ [] := fun o ho => hopts o (h.sublist.subset ho)
    have hleadk := length_lead_le kept
    refine ⟨_, kept ++ [opt], passOn_room hkept h.buffer h.length hroom, rfl, ?_⟩
    refine ⟨h.sublist.append (List.Sublist.refl _), rfl, rfl, ?_, fun hfull => ?_⟩
    · have hlength := h.length
      show (join (kept ++ [opt])).length ≤ 255
      rw [join_kept_concat, List.length_append]
      omega
    · rw [h.full (by omega)]
  · refine ⟨r, kept, passOn_no_room hlen h.short hroom, rfl, ?_⟩
    refine ⟨h.sublist.trans (List.sublist_append_left ..), h.buffer, h.length, h.short,
      fun hfull => ?_⟩
    -- all of them were kept, and this one would have fitted
    have hlength := h.length
    rw [h.full (by omega)] at hlength
    omega

end Data

-- ==== the loop

/-- What holds of the options seen so far. -/
structure Parsed (undef : Mem) (seen : List (List UInt8)) (r : ParsedFlags) : Prop where
  flags : FlagsOf seen r.flags
  passed : ∃ kept, Passed undef (seen.filter unrecognised) kept r
  solid : ∀ opt ∈ seen, opt ≠ []

section Loop

variable {undef : Mem} {seen : List (List UInt8)} {r : ParsedFlags} {opt : List UInt8}

theorem Parsed.init (undef : Mem) : Parsed undef [] ⟨msRdonly, undef, 0⟩ where
  flags := .nil
  passed := by
    have hjoin : join [] = [] := List.intercalate_nil
    refine ⟨[], .slnil, ?_, ?_, Nat.zero_le _, fun _ => rfl⟩
    · rw [hjoin]
      rfl
    · rw [hjoin]
      rfl
  solid := nofun

private theorem solid_concat (hseen : ∀ o ∈ seen, o ≠ []) (hopt : opt ≠ []) :
    ∀ o ∈ seen ++ [opt], o ≠ [] := by
  intro o ho
  rcases List.mem_append.1 ho with ho | ho
  · exact hseen o ho
  · rw [List.mem_singleton.1 ho]
    exact hopt

/-- One round of the loop, by the kind of the option. -/
theorem parseOption_step (h : Parsed undef seen r) (hopt : opt ≠ [])
    (hlen : opt.length < 2 ^ 63) :
    ∃ r', parseOption r opt = .ok r' ∧ Parsed undef (seen ++ [opt]) r' := by
  have hsolid := solid_concat h.solid hopt
  obtain ⟨kept, hpassed⟩ := h.passed
  unfold parseOption
  by_cases hrw : opt = utf8 "rw"
  · rw [if_pos hrw]
    have hrec : ¬ unrecognised opt = true := fun e => (unrecognised_iff.1 e).1 hrw
    refine ⟨_, rfl, hrw ▸ h.flags.clear, ?_, hsolid⟩
    rw [filter_concat_neg hrec]
    exact ⟨kept, { hpassed with }⟩
  rw [if_neg hrw]
  cases hflag : flagOf opt with
  | some flag =>
    have hrec : ¬ unrecognised opt = true := fun e =>
      Option.some_ne_none flag (hflag.symm.trans (unrecognised_iff.1 e).2)
    refine ⟨_, rfl, h.flags.set hflag, ?_, hsolid⟩
    rw [filter_concat_neg hrec]
    exact ⟨kept, { hpassed with }⟩
  | none =>
    have hun : unrecognised opt = true := unrecognised_iff.2 ⟨hrw, hflag⟩
    obtain ⟨r', kept', hpass, hflags, hpassed'⟩ :=
      hpassed.passOn (fun o ho => h.solid o (List.mem_of_mem_filter ho)) hlen
    refine ⟨r', hpass, hflags ▸ h.flags.pass hrw hflag, ⟨kept', ?_⟩, hsolid⟩
    rw [List.filter_append, List.filter_singleton, hun]
    exact hpassed'

/-- The loop does not trap, and what it says of all options holds. -/
theorem parseRootFlags_parsed (undef : Mem) (text : Text) :
    ∃ r, parseRootFlags undef (some text) = .ok r
      ∧ Parsed undef (tokens Ascii.comma text.bytes) r := by
  refine Checked.foldlM_total (P := Parsed undef) _ (fun {seen r opt} hopt h => ?_)
    (Parsed.init undef)
  refine parseOption_step h ?_ ?_
  · exact of_decide_eq_true (List.mem_filter.1 hopt).2
  · exact Nat.lt_of_le_of_lt (length_le_of_mem_tokens hopt) text.fits

end Loop

theorem Passed.data_eq {undef : Mem} {opts kept : List (List UInt8)} {r : ParsedFlags}
    (h : Passed undef opts kept r) : r.data = join kept := by
  have harray : dataBufArray.len = 256 := rfl
  have hshort := h.short
  unfold ParsedFlags.data
  rw [h.buffer, show 0 = dataBufArray.ptr from rfl, Slice.bytes_store_start undef
    (by rw [← h.length]; omega), h.length, List.take_left]

/-- What `parseRootFlags` makes of every text: it never writes outside its
array, the data is the join of options that it does not recognise, all of
them up to 254 bytes, the mount is read-only unless the last of `ro` and
`rw` says otherwise, and each other flag is set where its option is. -/
theorem parseRootFlags_exact (undef : Mem) (text : Text) :
    let options := tokens Ascii.comma text.bytes
    let passedOn := options.filter fun opt =>
      opt ∉ ["rw", "ro", "nosuid", "nodev", "noexec", "sync", "noatime", "nodiratime",
        "relatime", "strictatime"].map utf8
    ∃ parsed, parseRootFlags undef (some text) = .ok parsed
      ∧ (∀ a, 256 ≤ a → parsed.dataBuf a = undef a)
      ∧ parsed.dataLen ≤ 255
      ∧ (∃ kept, kept.Sublist passedOn ∧ parsed.data = join kept
          ∧ ((join passedOn).length ≤ 254 → kept = passedOn))
      ∧ (Has parsed.flags 0x01
          ↔ (options.filter fun opt => opt = utf8 "ro" ∨ opt = utf8 "rw").getLast?
            ≠ some (utf8 "rw"))
      ∧ (Has parsed.flags 0x02 ↔ utf8 "nosuid" ∈ options)
      ∧ (Has parsed.flags 0x04 ↔ utf8 "nodev" ∈ options)
      ∧ (Has parsed.flags 0x08 ↔ utf8 "noexec" ∈ options)
      ∧ (Has parsed.flags 0x10 ↔ utf8 "sync" ∈ options)
      ∧ (Has parsed.flags 0x400 ↔ utf8 "noatime" ∈ options)
      ∧ (Has parsed.flags 0x800 ↔ utf8 "nodiratime" ∈ options)
      ∧ (Has parsed.flags 0x200000 ↔ utf8 "relatime" ∈ options)
      ∧ (Has parsed.flags 0x1000000 ↔ utf8 "strictatime" ∈ options) := by
  obtain ⟨r, hr, h⟩ := parseRootFlags_parsed undef text
  obtain ⟨kept, hpassed⟩ := h.passed
  have hflag : ∀ row ∈ flagOptions.tail,
      (Has r.flags row.2 ↔ utf8 row.1 ∈ tokens Ascii.comma text.bytes) := by
    intro row hrow
    have hnames : ∀ row ∈ flagOptions.tail, row.1 ≠ "ro" := by decide
    exact h.flags.others row (List.mem_of_mem_tail hrow) (hnames row hrow)
  refine ⟨r, hr, fun a ha => ?_, hpassed.short, ?_, h.flags.readOnly,
    hflag ("nosuid", 0x02) (by decide), hflag ("nodev", 0x04) (by decide),
    hflag ("noexec", 0x08) (by decide), hflag ("sync", 0x10) (by decide),
    hflag ("noatime", 0x400) (by decide), hflag ("nodiratime", 0x800) (by decide),
    hflag ("relatime", 0x200000) (by decide), hflag ("strictatime", 0x1000000) (by decide)⟩
  · have hshort := hpassed.short
    rw [hpassed.buffer, store_eq, if_neg]
    rw [← hpassed.length]
    omega
  · exact ⟨kept, hpassed.sublist, hpassed.data_eq, hpassed.full⟩

/-- The example of the source. -/
def rwOrdered : Text := ⟨utf8 "rw,noatime,data=ordered", by decide⟩

/-- It is mounted for writing and without access times, and the rest is
passed on. -/
theorem rwOrdered_parsed : ∃ parsed, parseRootFlags (fun _ => 0) (some rwOrdered) = .ok parsed
    ∧ ¬ Has parsed.flags 0x01 ∧ Has parsed.flags 0x400 ∧ ¬ Has parsed.flags 0x800
    ∧ parsed.data = utf8 "data=ordered" := by
  obtain ⟨parsed, hparsed, -, -, ⟨kept, -, hdata, hall⟩, hro, -, -, -, -, hnoatime,
    hnodiratime, -, -⟩ := parseRootFlags_exact (fun _ => 0) rwOrdered
  refine ⟨parsed, hparsed, fun h => hro.1 h (by decide), hnoatime.2 (by decide),
    fun h => absurd (hnodiratime.1 h) (by decide), ?_⟩
  rw [hdata, hall (by decide)]
  decide

-- ==== the mount

/-- A text as far as the kernel reads it. -/
def upToZero (text : List UInt8) : List UInt8 := text.takeWhile fun c => c ≠ 0

/-- What stands behind a zero is not part of the text. -/
theorem upToZero_terminated (text rest : List UInt8) :
    upToZero (text ++ 0 :: rest) = upToZero text := by
  unfold upToZero
  induction text with
  | nil => rfl
  | cons c text ih => rw [List.cons_append, List.takeWhile_cons, List.takeWhile_cons, ih]

/-- A text that leaves room for the zero reaches the kernel. -/
theorem terminate_cString (undef : Mem) {buf : Slice} {text : List UInt8}
    (hroom : text.length < buf.len) :
    ∃ mem, terminate undef buf text = .ok mem ∧ cString mem buf = upToZero text := by
  refine ⟨store undef buf.ptr (text ++ [0]), ?_, ?_⟩
  · unfold terminate
    rw [Slice.write_eq (by omega)]
    show buf.write _ text.length [0] = _
    rw [Slice.write_eq hroom, store_append]
    rfl
  · have hlen : (text ++ [0]).length ≤ buf.len := by
      rw [List.length_append]
      exact hroom
    unfold cString
    rw [Slice.bytes_store_start undef hlen, List.append_assoc]
    exact upToZero_terminated text _

/-- The name of the file system. -/
def fstypeText (fstypeOpt : Option Text) : List UInt8 :=
  (fstypeOpt.map Text.bytes).getD (utf8 "ext4")

section Mount

variable (undef : Locals) (devPath : Text) (fstypeOpt flagsOpt : Option Text)

/-- The type is passed if it fits its buffer. -/
theorem fstypeArg_spec (undef : Mem) : fstypeArg undef fstypeOpt
    = .ok (if 32 ≤ (fstypeText fstypeOpt).length then none
      else some (upToZero (fstypeText fstypeOpt))) := by
  have harray : fstypeZArray.len = 32 := rfl
  cases fstypeOpt with
  | none => rfl
  | some ft =>
    have hft : fstypeText (some ft) = ft.bytes := rfl
    rw [fstypeArg, hft]
    by_cases hlong : 32 ≤ ft.bytes.length
    · rw [if_pos (show ft.bytes.length ≥ fstypeZArray.len from hlong), if_pos hlong]
    · obtain ⟨mem, hmem, hread⟩ :=
        terminate_cString undef (show ft.bytes.length < fstypeZArray.len by omega)
      rw [if_neg (show ¬ ft.bytes.length ≥ fstypeZArray.len from hlong), if_neg hlong, hmem,
        ← hread]
      rfl

/-- The data reaches the kernel with the zero in the last byte at most. -/
theorem dataArg_spec (undef : Mem) {parsed : ParsedFlags} (hshort : parsed.dataLen ≤ 255) :
    dataArg undef parsed
      = .ok (if parsed.dataLen = 0 then none else some (upToZero parsed.data)) := by
  have harray : dataBufArray.len = 256 := rfl
  have harrayZ : dataZArray.len = 256 := rfl
  unfold dataArg
  by_cases hzero : parsed.dataLen = 0
  · rw [if_neg (by omega), if_pos hzero]
  · rw [if_pos (by omega), if_neg hzero]
    obtain ⟨data, hsub, -, hlen, hbytes⟩ := Slice.sub_ok (s := dataBufArray)
      (Nat.zero_le parsed.dataLen) (by omega)
    have hdata : data.bytes parsed.dataBuf = parsed.data := by
      rw [hbytes]
      rfl
    obtain ⟨mem, hmem, hread⟩ := terminate_cString undef
      (show (data.bytes parsed.dataBuf).length < dataZArray.len by
        rw [Slice.length_bytes]; omega)
    rw [hsub]
    show (terminate undef dataZArray (data.bytes parsed.dataBuf)).bind _ = _
    rw [hmem, ← hdata, ← hread]
    rfl

/-- The data leave room for the zero behind them. -/
theorem parseRootFlags_short (undef : Mem) :
    ∃ parsed, parseRootFlags undef flagsOpt = .ok parsed ∧ parsed.dataLen ≤ 255 := by
  cases flagsOpt with
  | none => exact ⟨_, rfl, Nat.zero_le _⟩
  | some text =>
    obtain ⟨parsed, hparsed, h⟩ := parseRootFlags_parsed undef text
    obtain ⟨kept, hpassed⟩ := h.passed
    exact ⟨parsed, hparsed, hpassed.short⟩

/-- The call for these options. -/
def rootCall (parsed : ParsedFlags) : MountCall where
  source := upToZero devPath.bytes
  target := utf8 "/newroot"
  fstype := upToZero (fstypeText fstypeOpt)
  flags := parsed.flags
  data := if parsed.dataLen = 0 then none else some (upToZero parsed.data)

/-- The arguments of the call, or the first text that is too long. -/
theorem mountArgs_spec {parsed : ParsedFlags} (hshort : parsed.dataLen ≤ 255)
    (hparsed : parseRootFlags undef.dataBuf flagsOpt = .ok parsed) :
    mountArgs undef devPath fstypeOpt flagsOpt
      = .ok (if 256 ≤ devPath.bytes.length then .error .pathTooLong
        else if 32 ≤ (fstypeText fstypeOpt).length then .error .fsTypeTooLong
        else .ok (rootCall devPath fstypeOpt parsed)) := by
  unfold mountArgs
  by_cases hpath : 256 ≤ devPath.bytes.length
  · rw [if_pos (show devPath.bytes.length ≥ devZArray.len from hpath), if_pos hpath]
  have harray : devZArray.len = 256 := rfl
  obtain ⟨mem, hmem, hread⟩ :=
    terminate_cString undef.devZ (show devPath.bytes.length < devZArray.len by omega)
  rw [if_neg (show ¬ devPath.bytes.length ≥ devZArray.len from hpath), if_neg hpath, hmem,
    fstypeArg_spec]
  by_cases htype : 32 ≤ (fstypeText fstypeOpt).length
  · rw [if_pos htype, if_pos htype]
    rfl
  · rw [if_neg htype, if_neg htype, rootCall, ← hread]
    rw [hparsed]
    show (dataArg undef.dataZ parsed).bind _ = _
    rw [dataArg_spec undef.dataZ hshort]
    rfl

/-- The root device is mounted, if the texts fit and the kernel takes the
call. Nothing traps on the way. -/
theorem mountRootDevice_spec (mount : MountCall → Bool) :
    ∃ parsed, parseRootFlags undef.dataBuf flagsOpt = .ok parsed
      ∧ mountRootDevice undef mount devPath fstypeOpt flagsOpt
        = .ok (if 256 ≤ devPath.bytes.length then .error .pathTooLong
          else if 32 ≤ (fstypeText fstypeOpt).length then .error .fsTypeTooLong
          else if mount (rootCall devPath fstypeOpt parsed) then .ok ()
          else .error .mountFailed) := by
  obtain ⟨parsed, hparsed, hshort⟩ := parseRootFlags_short flagsOpt undef.dataBuf
  refine ⟨parsed, hparsed, ?_⟩
  unfold mountRootDevice
  rw [mountArgs_spec undef devPath fstypeOpt flagsOpt hshort hparsed]
  split
  · rfl
  · split
    · rfl
    · rfl

end Mount

end Dynamod.Init.Switchroot
