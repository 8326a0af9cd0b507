/-
Names of the systemd1 bridge (`dynamod-sd1bridge/src/mapping.rs`): a
service of dynamod as a unit of systemd, and a unit as an object path.

# When the names are faithful

A byte that is neither a letter nor a digit is written as an underscore
and two hexadecimal digits, and an underscore is written as it is. So a
name that has the code of such a byte in it is written like the name with
the byte itself. `readBack` puts the bytes in the place of their codes, and
two names are confused exactly if they are then the same
(`written_eq_iff`): what is written does not change when the codes are
read (`written_readBack`), and reading what was written is reading the
name (`readBack_written`), since no code begins inside of one that was
written and none is made of parts of two.
-/
import Dynamod.Lib.Bytes
import Dynamod.Lib.Text

namespace Dynamod.Sd1bridge

open Lib

def unitToService (unitName : String) : String :=
  match stripEnd unitName.toList ".service".toList with
  | some rest => String.ofList rest
  | none => unitName

def serviceToUnit (serviceName : String) : String :=
  if endsWith serviceName ".service" then serviceName else serviceName ++ ".service"

/-- `b.is_ascii_alphanumeric() || b == b'_'`. -/
def isPlain (b : UInt8) : Bool :=
  (0x30 ≤ b && b ≤ 0x39) || (0x41 ≤ b && b ≤ 0x5a) || (0x61 ≤ b && b ≤ 0x7a) || b == 0x5f

/-- A digit of `{:02x}`. -/
def hexDigit (n : Nat) : Char :=
  if n < 10 then Char.ofNat (0x30 + n) else Char.ofNat (0x57 + n)

/-- What `escape_unit_path` writes for a byte. -/
def escapeByte (b : UInt8) : List Char :=
  if isPlain b then [Char.ofNat b.toNat]
  else ['_', hexDigit (b.toNat / 16), hexDigit (b.toNat % 16)]

def escapeUnitPath (unitName : String) : String :=
  let out := (utf8 unitName).flatMap escapeByte
  if out = [] then "_" else String.ofList out

def unitObjectPath (unitName : String) : String :=
  "/org/freedesktop/systemd1/unit/" ++ escapeUnitPath unitName

-- ==== one byte, escaped

/-- A digit, as a byte of a name. -/
def digit (n : Nat) : UInt8 := UInt8.ofNat (hexDigit n).toNat

/-- What is written for a byte, as bytes of a name. -/
def coded (b : UInt8) : List UInt8 :=
  if isPlain b then [b] else [0x5f, digit (b.toNat / 16), digit (b.toNat % 16)]

/-- What is written for a name. -/
def written (name : List UInt8) : List UInt8 := name.flatMap coded

/-- A digit is no underscore and is not escaped, and differs from the
others. -/
theorem digit_spec : ∀ n < 16, isPlain (digit n) = true ∧ digit n ≠ 0x5f
    ∧ hexDigit n = Char.ofNat (digit n).toNat := by
  decide

theorem digit_inj : ∀ m < 16, ∀ n < 16, digit m = digit n → m = n := by
  decide

theorem digits_lt (x : UInt8) : x.toNat / 16 < 16 ∧ x.toNat % 16 < 16 := by
  have hx := x.toNat_lt
  omega

variable {b c h l : UInt8} {s t : List UInt8}

theorem coded_plain (hb : isPlain b = true) : coded b = [b] := if_pos hb

theorem coded_escaped (hb : isPlain b = false) :
    coded b = [0x5f, digit (b.toNat / 16), digit (b.toNat % 16)] :=
  if_neg (Bool.eq_false_iff.1 hb)

/-- An escaped byte is known by its code. -/
theorem coded_inj (hb : isPlain b = false) (hc : isPlain c = false)
    (e : coded b = coded c) : b = c := by
  rw [coded_escaped hb, coded_escaped hc] at e
  injection e with _ e
  injection e with hhigh e
  injection e with hlow _
  have hhigh' := digit_inj _ (digits_lt b).1 _ (digits_lt c).1 hhigh
  have hlow' := digit_inj _ (digits_lt b).2 _ (digits_lt c).2 hlow
  exact UInt8.toNat_inj.1 (by omega)

/-- The bytes of a code are an underscore and two digits. -/
theorem coded_parts (hc : isPlain c = false) (e : coded c = [b, h, l]) :
    b = 0x5f ∧ ∃ m < 16, ∃ n < 16, h = digit m ∧ l = digit n := by
  rw [coded_escaped hc] at e
  injection e with hb e
  injection e with hh e
  injection e with hl _
  exact ⟨hb.symm, _, (digits_lt c).1, _, (digits_lt c).2, hh.symm, hl.symm⟩

-- ==== reading the codes

/-- The byte whose code this is. -/
def codeByte (b h l : UInt8) : Option UInt8 :=
  ((List.range 256).map UInt8.ofNat).find? fun c => !isPlain c && coded c == [b, h, l]

/-- The name with the bytes in the place of their codes. -/
def readBack : List UInt8 → List UInt8
  | b :: h :: l :: rest =>
    match codeByte b h l with
    | some c => c :: readBack rest
    | none => b :: readBack (h :: l :: rest)
  | short => short

theorem codeByte_eq_some : codeByte b h l = some c ↔ isPlain c = false ∧ coded c = [b, h, l] := by
  have hfound : ∀ {d}, codeByte b h l = some d → isPlain d = false ∧ coded d = [b, h, l] := by
    intro d hd
    have hprop := List.find?_some hd
    simpa using hprop
  refine ⟨hfound, fun ⟨hplain, hcode⟩ => ?_⟩
  cases hfind : codeByte b h l with
  | some d =>
    obtain ⟨hd, hcoded⟩ := hfound hfind
    rw [coded_inj hd hplain (hcoded.trans hcode.symm)]
  | none =>
    have hmem : c ∈ (List.range 256).map UInt8.ofNat :=
      List.mem_map.2 ⟨c.toNat, List.mem_range.2 c.toNat_lt, UInt8.ofNat_toNat⟩
    have hnot := List.find?_eq_none.1 hfind c hmem
    simp [hplain, hcode] at hnot

/-- A byte that begins no code is read as it is. -/
theorem readBack_cons (hb : ∀ h l rest, s = h :: l :: rest → codeByte b h l = none) :
    readBack (b :: s) = b :: readBack s := by
  rcases s with _ | ⟨h, _ | ⟨l, rest⟩⟩
  · rfl
  · rfl
  · rw [readBack, hb h l rest rfl]

/-- The parts of a code are written as they are. -/
theorem written_code (hc : isPlain c = false) (e : coded c = [b, h, l]) :
    written (b :: h :: l :: s) = b :: h :: l :: written s := by
  obtain ⟨rfl, m, hm, n, hn, rfl, rfl⟩ := coded_parts hc e
  have hb : isPlain 0x5f = true := by decide
  simp only [written, List.flatMap_cons, coded_plain hb, coded_plain (digit_spec m hm).1,
    coded_plain (digit_spec n hn).1]
  rfl

/-- A name that is written with a digit in front begins with it. -/
theorem digit_in_front {n : Nat} (hn : n < 16) (e : written s = digit n :: t) :
    ∃ s', s = digit n :: s' ∧ written s' = t := by
  cases s with
  | nil => cases e
  | cons x s =>
    rw [written, List.flatMap_cons] at e
    cases hx : isPlain x with
    | true =>
      rw [coded_plain hx] at e
      injection e with hhead htail
      exact ⟨s, by rw [hhead], htail⟩
    | false =>
      rw [coded_escaped hx] at e
      injection e with hhead _
      exact absurd hhead.symm (digit_spec n hn).2.1

/-- What is written for a byte that begins no code is read as the byte. -/
theorem readBack_written_cons (hb : ∀ h l rest, s = h :: l :: rest → codeByte b h l = none) :
    readBack (written (b :: s)) = b :: readBack (written s) := by
  rw [written, List.flatMap_cons]
  cases hplain : isPlain b with
  | false =>
    have hcode := codeByte_eq_some.2 ⟨hplain, coded_escaped hplain⟩
    rw [coded_escaped hplain]
    show readBack (_ :: _ :: _ :: written s) = _
    rw [readBack, hcode]
  | true =>
    rw [coded_plain hplain]
    refine readBack_cons fun h l rest e => ?_
    -- a code at this place would be one of the name
    refine Option.eq_none_iff_forall_ne_some.2 fun c hc => ?_
    obtain ⟨hesc, hcode⟩ := codeByte_eq_some.1 hc
    obtain ⟨-, m, hm, n, hn, rfl, rfl⟩ := coded_parts hesc hcode
    obtain ⟨s₁, rfl, h₁⟩ := digit_in_front hm e
    obtain ⟨s₂, rfl, -⟩ := digit_in_front hn h₁
    rw [hb _ _ s₂ rfl] at hc
    cases hc

/-- What is written is the same once the codes are read. -/
theorem written_readBack (s : List UInt8) : written (readBack s) = written s := by
  induction s using readBack.induct with
  | case1 b h l rest c hc ih =>
    obtain ⟨hesc, hcode⟩ := codeByte_eq_some.1 hc
    rw [readBack, hc, written_code hesc hcode]
    show coded c ++ written (readBack rest) = _
    rw [hcode, ih]
    rfl
  | case2 b h l rest hc ih =>
    rw [readBack, hc]
    show coded b ++ written (readBack (h :: l :: rest)) = _
    rw [ih]
    rfl
  | case3 short hshort => rw [readBack.eq_2 short hshort]

/-- Reading what was written is reading the name. -/
theorem readBack_written (s : List UInt8) : readBack (written s) = readBack s := by
  induction s using readBack.induct with
  | case1 b h l rest c hc ih =>
    obtain ⟨hesc, hcode⟩ := codeByte_eq_some.1 hc
    rw [written_code hesc hcode, readBack, readBack, hc]
    exact congrArg (c :: ·) ih
  | case2 b h l rest hc ih =>
    have hb : ∀ h' l' rest', h :: l :: rest = h' :: l' :: rest' → codeByte b h' l' = none := by
      rintro h' l' rest' e
      cases e
      exact hc
    rw [readBack_written_cons hb, readBack_cons hb, ih]
  | case3 short hshort =>
    rcases short with _ | ⟨x, _ | ⟨y, _ | ⟨z, rest⟩⟩⟩
    · rfl
    · exact readBack_written_cons fun _ _ _ e => by cases e
    · have hy : readBack (written [y]) = [y] :=
        readBack_written_cons fun _ _ _ e => by cases e
      rw [readBack_written_cons (fun _ _ _ e => by cases e), hy]
      rfl
    · exact absurd rfl (hshort x y z rest)

/-- Two names are written alike exactly if they are read alike. -/
theorem written_eq_iff : written s = written t ↔ readBack s = readBack t := by
  constructor
  · intro e
    rw [← readBack_written s, e, readBack_written t]
  · intro e
    rw [← written_readBack s, e, written_readBack t]

-- ==== units and services

theorem toNat_ofNat_byte (b : UInt8) : (Char.ofNat b.toNat).toNat = b.toNat := by
  have hvalid : b.toNat.isValidChar := Or.inl (Nat.lt_trans b.toNat_lt (by decide))
  rw [Char.ofNat, dif_pos hvalid]
  rfl

theorem charOfByte_injective : Function.Injective fun b : UInt8 => Char.ofNat b.toNat := by
  intro x y e
  have hnat := congrArg Char.toNat e
  rw [toNat_ofNat_byte, toNat_ofNat_byte] at hnat
  exact UInt8.toNat_inj.1 hnat

theorem escapeByte_eq (b : UInt8) : escapeByte b = (coded b).map fun x => Char.ofNat x.toNat := by
  unfold escapeByte coded
  split
  · rfl
  · rw [(digit_spec _ (digits_lt b).1).2.2, (digit_spec _ (digits_lt b).2).2.2]
    rfl

theorem flatMap_escapeByte (s : List UInt8) :
    s.flatMap escapeByte = (written s).map fun x => Char.ofNat x.toNat := by
  rw [written, List.map_flatMap]
  exact congrArg s.flatMap (funext escapeByte_eq)

theorem endsWith_iff {text back : String} :
    endsWith text back = true ↔ ∃ rest, text.toList = rest ++ back.toList := by
  rw [endsWith, List.isSuffixOf_iff_suffix]
  exact exists_congr fun _ => eq_comm

theorem unitToService_eq {text : String} {rest : List Char}
    (h : text.toList = rest ++ ".service".toList) : unitToService text = String.ofList rest := by
  unfold unitToService
  rw [stripEnd_eq_some.2 h]

theorem unitToService_unsuffixed {service : String} (h : endsWith service ".service" = false) :
    unitToService service = service := by
  unfold unitToService
  cases hstrip : stripEnd service.toList ".service".toList with
  | none => rfl
  | some rest =>
    rw [endsWith_iff.2 ⟨rest, stripEnd_eq_some.1 hstrip⟩] at h
    cases h

/-- A unit is the name without the end `.service`, and that end. -/
theorem serviceToUnit_eq (service : String) :
    serviceToUnit service = unitToService service ++ ".service" := by
  unfold serviceToUnit
  split
  · next h =>
    obtain ⟨rest, hrest⟩ := endsWith_iff.1 h
    rw [unitToService_eq hrest, ← String.toList_inj, hrest, String.toList_append,
      String.toList_ofList (l := rest)]
  · next h => rw [unitToService_unsuffixed (Bool.eq_false_iff.2 h)]

/-- A service is named back exactly if its own name does not end like a
unit. -/
theorem unitToService_serviceToUnit (service : String) :
    unitToService (serviceToUnit service) = service ↔ endsWith service ".service" = false := by
  cases h : endsWith service ".service" with
  | true =>
    obtain ⟨rest, hrest⟩ := endsWith_iff.1 h
    refine iff_of_false (fun hback => ?_) (by nofun)
    rw [serviceToUnit, if_pos h, unitToService_eq hrest, ← String.toList_inj,
      String.toList_ofList, hrest] at hback
    exact absurd (List.self_eq_append_right.1 hback) (by decide)
  | false =>
    refine iff_of_true ?_ rfl
    rw [serviceToUnit, if_neg (Bool.eq_false_iff.1 h),
      unitToService_eq (String.toList_append), String.ofList_toList]

/-- The path of a unit, from the name of its service. -/
theorem escapeUnitPath_serviceToUnit (service : String) : escapeUnitPath (serviceToUnit service)
    = String.ofList ((written (utf8 (unitToService service)) ++ written (utf8 ".service")).map
        fun x => Char.ofNat x.toNat) := by
  have hwritten : written (utf8 (serviceToUnit service))
      = written (utf8 (unitToService service)) ++ written (utf8 ".service") := by
    rw [serviceToUnit_eq, utf8_append, written, written, written, List.flatMap_append]
  unfold escapeUnitPath
  rw [flatMap_escapeByte, hwritten]
  refine if_neg fun hnil => ?_
  rw [List.map_eq_nil_iff, List.append_eq_nil_iff] at hnil
  exact absurd hnil.2 (by decide)

/-- A service is named back exactly if its name does not end like a unit,
and two services have different paths exactly if their names differ
without this end and with the codes in them read. -/
theorem names_faithful_iff (service other : String) :
    (unitToService (serviceToUnit service) = service ↔ endsWith service ".service" = false)
      ∧ (unitObjectPath (serviceToUnit service) ≠ unitObjectPath (serviceToUnit other)
        ↔ readBack (utf8 (unitToService service)) ≠ readBack (utf8 (unitToService other))) := by
  refine ⟨unitToService_serviceToUnit service, not_congr ?_⟩
  unfold unitObjectPath
  rw [String.append_right_inj, escapeUnitPath_serviceToUnit, escapeUnitPath_serviceToUnit,
    String.ofList_inj, (List.map_injective_iff.2 charOfByte_injective).eq_iff,
    List.append_left_inj, written_eq_iff]

/-- The codes in two names may differ: they have different paths. -/
theorem workers_faithful : unitToService (serviceToUnit "worker_20") = "worker_20"
    ∧ unitObjectPath (serviceToUnit "worker_20")
      ≠ unitObjectPath (serviceToUnit "worker_21") := by
  obtain ⟨hback, hpaths⟩ := names_faithful_iff "worker_20" "worker_21"
  exact ⟨hback.2 (by decide), hpaths.2 (by decide)⟩

/-- A service named like a unit loses the end of its name, and has the
path of the service without it; a dot has the path of its code. -/
theorem names_confused : unitToService (serviceToUnit "web.service") = "web"
    ∧ unitObjectPath (serviceToUnit "web.service") = unitObjectPath (serviceToUnit "web")
    ∧ unitObjectPath (serviceToUnit "a.b") = unitObjectPath (serviceToUnit "a_2eb") := by
  have hunit : serviceToUnit "web.service" = serviceToUnit "web" := by decide
  exact ⟨by decide, congrArg unitObjectPath hunit, by decide⟩

end Dynamod.Sd1bridge
