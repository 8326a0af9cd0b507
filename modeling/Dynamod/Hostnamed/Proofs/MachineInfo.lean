/-
A field that was set is read back, and the others stay: when.

`contentLines` are the lines that a reader goes through. A setter drops the
lines of its field, writes the others back and adds its own
(`read_update`). Two things come in between. Reading a line takes a carriage
return off its end, so writing the lines back takes off one more. And the
value is written as it is: a line feed in it makes further lines, and quotes
at its ends are taken off with those of the setter.

`update_exact` says that nothing else does. Keys are compared as fronts of
lines, so it is about keys of which none is the front of another with its
equals sign (`Separate`), as those of the setters (`Field.separate`).
-/
import Dynamod.Hostnamed.MachineInfo

namespace Dynamod.Hostnamed

open Lib

/-- The lines of the file as they are read. -/
def contentLines (file : File) : List (List Char) :=
  lines '\n' '\r' ((readToString file).getD "").toList

/-- The lines that stay. -/
def kept (file : File) (key : String) : List (List Char) :=
  (contentLines file).filter fun l => !(tag key).isPrefixOf l

/-- The lines that the setter adds, as they are read. -/
def added (key value : String) : List (List Char) :=
  if value = "" then [] else lines '\n' '\r' (entry key value ++ ['\n'])

def fieldLine (file : File) (key : String) : Option (List Char) :=
  (contentLines file).find? fun l => (tag key).isPrefixOf l

/-- Neither key with its equals sign is the front of the other. -/
def Separate (key other : String) : Prop := ¬ tag key <+: tag other ∧ ¬ tag other <+: tag key

/-- A value that stays on its line and has no quote at its ends. -/
structure Bare (value : String) : Prop where
  line : '\n' ∉ value.toList
  front : value.toList.head? ≠ some quote
  back : value.toList.getLast? ≠ some quote

-- ==== the quotes

section Quotes

variable {text : List Char}

/-- The quotes of the setter are taken off with those of the value. -/
theorem trimQuotes_quoted (text : List Char) :
    trimQuotes (quote :: (text ++ [quote])) = trimQuotes text := by
  unfold trimQuotes
  rw [List.dropWhile_cons_of_pos (by decide), List.dropWhile_append]
  split
  · next h =>
    rw [List.isEmpty_iff.1 h]
    rfl
  · rw [List.rdropWhile_concat_pos _ _ _ (by decide)]

/-- A carriage return keeps what stands before it. -/
theorem trimQuotes_return (text : List Char) :
    trimQuotes (text ++ ['\r']) = (text.dropWhile fun c => c = quote) ++ ['\r'] := by
  unfold trimQuotes
  rw [List.dropWhile_append]
  split
  · next h =>
    rw [List.isEmpty_iff.1 h]
    rfl
  · rw [List.rdropWhile_concat_neg _ _ _ (by decide)]

private theorem dropQuotes_eq_self :
    (text.dropWhile fun c => c = quote) = text ↔ text.head? ≠ some quote := by
  cases text with
  | nil => exact iff_of_true rfl nofun
  | cons c text =>
    rw [List.head?_cons, Ne, Option.some_inj]
    by_cases hc : c = quote
    · refine iff_of_false (fun e => ?_) (not_not.2 hc)
      have hle := (List.dropWhile_sublist (l := text) fun c => c = quote).length_le
      rw [List.dropWhile_cons, if_pos (decide_eq_true hc)] at e
      rw [e, List.length_cons] at hle
      omega
    · exact iff_of_true (List.dropWhile_cons_of_neg (by simpa using hc)) hc

theorem trimQuotes_eq_self :
    trimQuotes text = text ↔ text.head? ≠ some quote ∧ text.getLast? ≠ some quote := by
  have hback : (text.rdropWhile fun c => c = quote) = text ↔ text.getLast? ≠ some quote := by
    rw [List.rdropWhile, List.reverse_eq_iff, dropQuotes_eq_self, List.head?_reverse]
  constructor
  · intro h
    have hfront : (text.dropWhile fun c => c = quote) = text := by
      refine (List.dropWhile_sublist _).eq_of_length_le ?_
      have hle := (List.rdropWhile_prefix (fun c => decide (c = quote))
        (text.dropWhile fun c => c = quote)).length_le
      rwa [show List.rdropWhile _ _ = text from h] at hle
    rw [trimQuotes, hfront] at h
    exact ⟨dropQuotes_eq_self.1 hfront, hback.1 h⟩
  · rintro ⟨hfront, hlast⟩
    rw [trimQuotes, dropQuotes_eq_self.2 hfront, hback.2 hlast]

end Quotes

-- ==== one line

section Line

variable {key other : String} {line : List Char}

theorem fieldOn_eq_none : fieldOn key line = none ↔ ¬ tag key <+: line := by
  unfold fieldOn
  rw [Option.map_eq_none_iff, ← Option.not_isSome_iff_eq_none,
    List.isSome_isPrefixOf?_eq_isPrefixOf, List.isPrefixOf_iff_prefix]

theorem fieldOn_append (key : String) (text : List Char) :
    fieldOn key (tag key ++ text) = some (String.ofList (trimQuotes text)) := by
  unfold fieldOn
  rw [List.isPrefixOf?_eq_some_iff_append_eq.2 rfl]
  rfl

/-- A carriage return at the end is not part of the front. -/
theorem tag_return_iff (text : List Char) : tag key <+: text ++ ['\r'] ↔ tag key <+: text := by
  rw [List.prefix_concat_iff]
  refine or_iff_right fun e => ?_
  have hlast := congrArg List.getLast? e
  rw [tag, List.getLast?_concat, List.getLast?_concat] at hlast
  cases hlast

theorem tag_chomp_iff : tag key <+: chomp '\r' line ↔ tag key <+: line := by
  unfold chomp
  split
  · next hlast =>
    obtain ⟨text, rfl⟩ := List.getLast?_eq_some_iff.1 hlast
    rw [List.dropLast_concat, tag_return_iff]
  · rfl

/-- A line of a field is read as before without its carriage return exactly
if it has none. -/
theorem fieldOn_chomp_iff (h : tag key <+: line) :
    fieldOn key (chomp '\r' line) = fieldOn key line ↔ line.getLast? ≠ some '\r' := by
  refine ⟨fun heq hlast => ?_, fun hlast => by rw [chomp_of_last hlast]⟩
  obtain ⟨text, rfl⟩ := List.getLast?_eq_some_iff.1 hlast
  obtain ⟨value, rfl⟩ := (tag_return_iff text).1 h
  rw [chomp, if_pos hlast, List.dropLast_concat, List.append_assoc, fieldOn_append,
    fieldOn_append, Option.some_inj, String.ofList_inj, trimQuotes_return] at heq
  -- the trimmed value would be longer than what it was trimmed from
  have hle := (List.rdropWhile_prefix (fun c => decide (c = quote))
    (value.dropWhile fun c => c = quote)).length_le
  have hlength := congrArg List.length heq
  rw [List.length_append] at hlength
  unfold trimQuotes at hlength
  simp only [List.length_singleton] at hlength
  omega

theorem Separate.not_both (h : Separate key other) (hkey : tag key <+: line) :
    ¬ tag other <+: line := by
  intro hother
  exact (List.prefix_or_prefix_of_prefix hkey hother).elim h.1 h.2

end Line

-- ==== the lines

section Lines

variable (file : File) (key value : String)

theorem read_eq_findSome :
    readMachineInfoField file key = (contentLines file).findSome? (fieldOn key) := by
  unfold readMachineInfoField contentLines
  cases readToString file with
  | none => rfl
  | some content => rfl

theorem findSome_eq_bind (ls : List (List Char)) : ls.findSome? (fieldOn key)
    = (ls.find? fun l => (tag key).isPrefixOf l).bind (fieldOn key) := by
  induction ls with
  | nil => rfl
  | cons l ls ih =>
    rw [List.findSome?_cons, List.find?_cons]
    by_cases h : tag key <+: l
    · rw [List.isPrefixOf_iff_prefix.2 h]
      obtain ⟨text, rfl⟩ := h
      rw [fieldOn_append]
      exact (fieldOn_append key text).symm
    · rw [fieldOn_eq_none.2 h, Bool.eq_false_iff.2 (mt List.isPrefixOf_iff_prefix.1 h)]
      exact ih

theorem mem_kept {l : List Char} (h : l ∈ kept file key) : '\n' ∉ l ∧ ¬ tag key <+: l := by
  obtain ⟨hmem, htag⟩ := List.mem_filter.1 h
  refine ⟨not_mem_of_mem_lines hmem, fun hfront => ?_⟩
  rw [List.isPrefixOf_iff_prefix.2 hfront] at htag
  cases htag

theorem contentLines_written (text : List Char) :
    contentLines (some (utf8 (String.ofList text))) = lines '\n' '\r' text := by
  have hread : readToString (some (utf8 (String.ofList text))) = some (String.ofList text) :=
    fromUtf8_eq_some.2 rfl
  rw [contentLines, hread, Option.getD_some, String.toList_ofList]

/-- The lines behind a setter: those that stay and those it adds, or the
empty line of an empty file. -/
theorem contentLines_update : contentLines (updateMachineInfo file key value)
    = if kept file key = [] ∧ value = "" then [[]]
      else (kept file key).map (chomp '\r') ++ added key value := by
  have hkept : ∀ l ∈ kept file key, '\n' ∉ l := fun l hl => (mem_kept file key hl).1
  rw [updateMachineInfo, contentLines_written, added]
  show lines '\n' '\r' (['\n'].intercalate (if value ≠ "" then kept file key ++ [entry key value]
    else kept file key) ++ ['\n']) = _
  by_cases hvalue : value = ""
  · rw [if_neg (not_not.2 hvalue), if_pos hvalue, List.append_nil]
    rcases List.eq_nil_or_concat (kept file key) with h | ⟨init, last, h⟩
    · rw [if_pos ⟨h, hvalue⟩, h, List.intercalate_nil]
      rfl
    · rw [List.concat_eq_append] at h
      rw [h] at hkept ⊢
      have hlast := hkept last (List.mem_append_right init List.mem_cons_self)
      rw [if_neg fun hnil => List.concat_ne_nil last init hnil.1,
        lines_join fun l hl => hkept l (List.mem_append_left _ hl), lines_single hlast,
        List.map_append]
      rfl
  · rw [if_pos hvalue, if_neg hvalue, if_neg fun hnil => hvalue hnil.2, lines_join hkept]

theorem read_update (k : String) : readMachineInfoField (updateMachineInfo file key value) k
    = ((kept file key).map (chomp '\r') ++ added key value).findSome? (fieldOn k) := by
  rw [read_eq_findSome, contentLines_update]
  split
  · next h =>
    have hnil : fieldOn k [] = none :=
      fieldOn_eq_none.2 fun htag => absurd (List.prefix_nil.1 htag) (List.concat_ne_nil _ _)
    rw [h.1, added, if_pos h.2, List.findSome?_cons, hnil]
    rfl
  · rfl

/-- The field of the setter is read from the lines it added. -/
theorem read_update_key : readMachineInfoField (updateMachineInfo file key value) key
    = (added key value).findSome? (fieldOn key) := by
  have hkept : ((kept file key).map (chomp '\r')).findSome? (fieldOn key) = none := by
    rw [List.findSome?_eq_none_iff]
    intro l hl
    obtain ⟨m, hm, rfl⟩ := List.mem_map.1 hl
    exact fieldOn_eq_none.2 (mt tag_chomp_iff.1 (mem_kept file key hm).2)
  rw [read_update, List.findSome?_append, hkept]
  rfl

/-- Neither a value that is read nor its key has a line feed. -/
theorem read_no_lineFeed {v : String} (h : readMachineInfoField file key = some v) :
    '\n' ∉ key.toList ∧ '\n' ∉ v.toList := by
  rw [read_eq_findSome] at h
  obtain ⟨l, hl, hv⟩ := List.exists_of_findSome?_eq_some h
  have hline : '\n' ∉ l := not_mem_of_mem_lines hl
  have htag : tag key <+: l := by
    by_contra hno
    rw [fieldOn_eq_none.2 hno] at hv
    cases hv
  obtain ⟨text, rfl⟩ := htag
  rw [fieldOn_append, Option.some_inj] at hv
  constructor
  · exact fun hmem => hline (List.mem_append_left _ (List.mem_append_left _ hmem))
  · intro hmem
    rw [← hv, String.toList_ofList] at hmem
    have htext := (List.dropWhile_sublist _).subset ((List.rdropWhile_prefix _ _).subset hmem)
    exact hline (List.mem_append_right _ htext)

theorem entry_last : (entry key value).getLast? = some quote := by
  unfold entry
  rw [← List.cons_append, ← List.append_assoc, List.getLast?_concat]

/-- A value that stays on its line is one line. -/
theorem added_line (hvalue : value ≠ "") (hkey : '\n' ∉ key.toList)
    (hline : '\n' ∉ value.toList) :
    added key value = [entry key value] := by
  have hentry : '\n' ∉ entry key value := by
    unfold entry tag
    simp [hkey, hline, quote]
  have hlast : (entry key value).getLast? ≠ some '\r' := by
    rw [entry_last]
    decide
  rw [added, if_neg hvalue, lines_single hentry, chomp_of_last hlast]

/-- What was set is read back exactly if the value is bare. -/
theorem read_update_key_iff : readMachineInfoField (updateMachineInfo file key value) key
      = (if value = "" then none else some value)
    ↔ value = "" ∨ '\n' ∉ key.toList ∧ Bare value := by
  by_cases hvalue : value = ""
  · rw [if_pos hvalue, read_update_key, added, if_pos hvalue]
    exact iff_of_true rfl (.inl hvalue)
  rw [if_neg hvalue, or_iff_right hvalue]
  have hread (hkey : '\n' ∉ key.toList) (hline : '\n' ∉ value.toList) :
      readMachineInfoField (updateMachineInfo file key value) key
        = some (String.ofList (trimQuotes value.toList)) := by
    rw [read_update_key, added_line key value hvalue hkey hline, List.findSome?_cons, entry,
      fieldOn_append, trimQuotes_quoted]
  constructor
  · intro h
    obtain ⟨hkey, hline⟩ := read_no_lineFeed _ key h
    rw [hread hkey hline, Option.some_inj] at h
    have htrim : trimQuotes value.toList = value.toList := by
      rw [← String.toList_ofList (l := trimQuotes value.toList), h]
    obtain ⟨hfront, hback⟩ := trimQuotes_eq_self.1 htrim
    exact ⟨hkey, hline, hfront, hback⟩
  · rintro ⟨hkey, hbare⟩
    rw [hread hkey hbare.line, trimQuotes_eq_self.2 ⟨hbare.front, hbare.back⟩, String.ofList_toList]

end Lines

-- ==== the other fields

section Others

variable {file : File} {key value other : String}

/-- The first line of another field stays, without its carriage return. -/
theorem find_kept (h : Separate key other) :
    ((kept file key).map (chomp '\r')).find? (fun l => (tag other).isPrefixOf l)
      = (fieldLine file other).map (chomp '\r') := by
  have hchomp : ((fun l => (tag other).isPrefixOf l) ∘ chomp '\r')
      = fun l => (tag other).isPrefixOf l := by
    funext l
    rw [Bool.eq_iff_iff, List.isPrefixOf_iff_prefix, ← tag_chomp_iff]
    exact List.isPrefixOf_iff_prefix
  have hstay : (fun l => decide ((!(tag key).isPrefixOf l) = true
      ∧ (tag other).isPrefixOf l = true)) = fun l => (tag other).isPrefixOf l := by
    funext l
    rw [Bool.eq_iff_iff, decide_eq_true_iff, and_iff_right_iff_imp, List.isPrefixOf_iff_prefix,
      Bool.not_eq_true', Bool.eq_false_iff, Ne, List.isPrefixOf_iff_prefix]
    exact fun hother hkey => h.not_both hkey hother
  rw [List.find?_map, hchomp, kept, List.find?_filter, hstay, fieldLine]

/-- When another field is read as before. -/
theorem read_update_other_iff (h : Separate key other) :
    readMachineInfoField (updateMachineInfo file key value) other
        = readMachineInfoField file other
      ↔ (∀ line, fieldLine file other = some line → line.getLast? ≠ some '\r')
        ∧ (fieldLine file other = none → ∀ line ∈ added key value, ¬ tag other <+: line) := by
  rw [read_update, findSome_eq_bind, List.find?_append, find_kept h, read_eq_findSome,
    findSome_eq_bind]
  show _ = (fieldLine file other).bind _ ↔ _
  cases hline : fieldLine file other with
  | some line =>
    have hfront : tag other <+: line := List.isPrefixOf_iff_prefix.1 (List.find?_some hline)
    show fieldOn other (chomp '\r' line) = fieldOn other line ↔ _
    rw [fieldOn_chomp_iff hfront]
    constructor
    · intro hlast
      refine ⟨fun l hl => ?_, nofun⟩
      cases hl
      exact hlast
    · exact fun hall => hall.1 line rfl
  | none =>
    show ((added key value).find? fun l => (tag other).isPrefixOf l).bind (fieldOn other) = none
      ↔ _
    rw [← findSome_eq_bind, List.findSome?_eq_none_iff]
    constructor
    · intro hnone
      exact ⟨nofun, fun _ l hl => fieldOn_eq_none.1 (hnone l hl)⟩
    · exact fun hall l hl => fieldOn_eq_none.2 (hall.2 rfl l hl)

/-- A bare value adds its entry or nothing. -/
theorem mem_added {line : List Char} (hline : line ∈ added key value)
    (hvalue : value = "" ∨ '\n' ∉ key.toList ∧ Bare value) : line = entry key value := by
  by_cases hnil : value = ""
  · rw [added, if_pos hnil] at hline
    cases hline
  · obtain ⟨hkey, hbare⟩ := hvalue.resolve_left hnil
    rw [added_line key value hnil hkey hbare.line] at hline
    exact List.mem_singleton.1 hline

/-- A bare value makes no line of another field. -/
theorem added_other (h : Separate key other)
    (hvalue : value = "" ∨ '\n' ∉ key.toList ∧ Bare value) :
    ∀ line ∈ added key value, ¬ tag other <+: line := by
  intro line hline
  rw [mem_added hline hvalue]
  exact h.not_both (List.prefix_append ..)

end Others

/-- The field that was set is read back and all others are as before,
exactly if the value is empty or bare and no line of another field ends in
a carriage return. -/
theorem update_exact (file : File) (key value : String) :
    (readMachineInfoField (updateMachineInfo file key value) key
        = (if value = "" then none else some value)
      ∧ ∀ other, Separate key other → readMachineInfoField (updateMachineInfo file key value) other
          = readMachineInfoField file other)
    ↔ (value = "" ∨ '\n' ∉ key.toList ∧ Bare value)
      ∧ ∀ other, Separate key other →
        ∀ line, fieldLine file other = some line → line.getLast? ≠ some '\r' := by
  rw [read_update_key_iff]
  refine and_congr_right fun hvalue => forall₂_congr fun other hsep => ?_
  rw [read_update_other_iff hsep]
  exact and_iff_left fun _ => added_other hsep hvalue

/-- A quote at the end is lost, a line feed forges another field, and a
carriage return at the end of a line of another field is lost. -/
theorem update_diverges :
    readMachineInfoField (updateMachineInfo none "LOCATION" "a\x22") "LOCATION" = some "a"
      ∧ readMachineInfoField (updateMachineInfo none "LOCATION" "a\nCHASSIS=server") "CHASSIS"
        = some "server"
      ∧ readMachineInfoField (some (utf8 "CHASSIS=vm\r")) "CHASSIS" = some "vm\r"
      ∧ readMachineInfoField (updateMachineInfo (some (utf8 "CHASSIS=vm\r")) "LOCATION" "a")
        "CHASSIS" = some "vm" := by
  refine ⟨?_, ?_, ?_, ?_⟩
  · rw [read_update]
    decide
  · rw [read_update]
    decide
  · rw [read_eq_findSome]
    decide
  · rw [read_update]
    decide

-- ==== the interface

section Interface

variable {file : File}

theorem Field.separate {field other : Field} (h : other ≠ field) :
    Separate field.key other.key := by
  cases field <;> cases other <;> first | exact absurd rfl h | exact ⟨by decide, by decide⟩

theorem Field.key_line (field : Field) : '\n' ∉ field.key.toList := by
  cases field <;> decide

/-- No line ends in a carriage return. -/
def Clean (file : File) : Prop :=
  ∀ line ∈ contentLines file, line.getLast? ≠ some '\r'

def values (file : File) (field : Field) : Option String := readMachineInfoField file field.key

/-- What a setter is for. -/
def setValue (vals : Field → Option String) (set : Field × String) : Field → Option String :=
  Function.update vals set.1 (if set.2 = "" then none else some set.2)

/-- A setter with a bare value sets its field and no other. -/
theorem values_setField (hclean : Clean file) (field : Field) {value : String}
    (hvalue : value = "" ∨ Bare value) :
    values (setField file field value) = setValue (values file) (field, value) := by
  have hbare := hvalue.imp_right fun h => And.intro field.key_line h
  funext other
  unfold setValue
  by_cases h : other = field
  · subst h
    rw [Function.update_self]
    exact (read_update_key_iff file other.key value).2 hbare
  · rw [Function.update_of_ne h]
    have hsep := Field.separate h
    refine (read_update_other_iff hsep).2 ⟨fun line hline => ?_, fun _ => added_other hsep hbare⟩
    exact hclean line (List.mem_of_find?_eq_some hline)

theorem Clean.setField (hclean : Clean file) (field : Field) {value : String}
    (hvalue : value = "" ∨ Bare value) : Clean (setField file field value) := by
  intro line hline
  rw [Hostnamed.setField, contentLines_update] at hline
  split at hline
  · rw [List.mem_singleton.1 hline]
    exact nofun
  · rcases List.mem_append.1 hline with hline | hline
    · obtain ⟨l, hl, rfl⟩ := List.mem_map.1 hline
      have hlast := hclean l (List.mem_of_mem_filter hl)
      rwa [chomp_of_last hlast]
    · rw [mem_added hline (hvalue.imp_right fun h => ⟨field.key_line, h⟩), entry_last]
      decide

/-- A row of setters with bare values on a clean file: the properties show
the values that were set last. -/
theorem property_run (detectChassis : Option String) (hclean : Clean file)
    (sets : List (Field × String)) (hsets : ∀ set ∈ sets, set.2 = "" ∨ Bare set.2)
    (field : Field) :
    property detectChassis (sets.foldl (fun file set => setField file set.1 set.2) file) field
      = (sets.foldl setValue (values file) field).getD (field.fallback detectChassis) := by
  have hrun : values (sets.foldl (fun file set => setField file set.1 set.2) file)
      = sets.foldl setValue (values file) := by
    induction sets generalizing file with
    | nil => rfl
    | cons set sets ih =>
      have hset := hsets set List.mem_cons_self
      rw [List.foldl_cons, List.foldl_cons, ← values_setField hclean set.1 hset]
      exact ih (hclean.setField set.1 hset) fun s hs => hsets s (List.mem_cons_of_mem _ hs)
  rw [← hrun]
  rfl

theorem chassis_shown : property none ([(Field.chassis, "laptop"), (.chassis, "")].foldl
      (fun file set => setField file set.1 set.2) none) .chassis
    = ([(Field.chassis, "laptop"), (.chassis, "")].foldl setValue (values none)
      .chassis).getD (Field.chassis.fallback none) := by
  refine property_run none (fun line hline => by cases hline) _ (fun set hset => ?_) _
  rcases List.mem_pair.1 hset with rfl | rfl
  · exact .inr ⟨by decide, by decide, by decide⟩
  · exact .inl rfl

end Interface

end Dynamod.Hostnamed
