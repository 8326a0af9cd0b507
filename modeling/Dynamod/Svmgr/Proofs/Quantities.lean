/-
What the parsers of durations and sizes return, against what the texts
mean. The meaning of a text is a number of any size times a unit
(`Lib.Units`); the parsers read the number into 64 bits and multiply
there, so they are exact on a text if and only if the product fits.

# The parsers

Each parser is `Units.readAny` of its own table (`parseDurationSecs_eq`,
`parseDurationSec_eq`, `number_parseBytes`): the first unit found decides
in the source, and no text ends in two of them. `parse_bytes` prints the
product, and passes on what it cannot read, a number alone included.

# The stop timeout

The stop timeout of a service is such a duration, and
`stop_service_graceful` adds it to the clock twice.
-/
import Mathlib.Data.List.DropRight
import Dynamod.Lib.Units
import Dynamod.Logind.Power
import Dynamod.Svmgr.Cgroup
import Dynamod.Svmgr.Proofs.Shutdown

namespace Dynamod.Svmgr

open Lib SupervisorTree

variable {cs : List Char} {c : Char}

-- ==== the text functions

theorem parseU64_eq_some {n : Nat} : parseU64 cs = some n ↔ number cs = some n ∧ n < 2 ^ 64 := by
  have hdigits : ∀ digits : List Char,
      (if digits = [] then none
        else if digits.all Char.isDigit then
          let n := digits.foldl (fun n c => 10 * n + (c.toNat - '0'.toNat)) 0
          if n < 2 ^ 64 then some n else none
        else none) = (decimal digits).filter fun n => n < 2 ^ 64 := by
    intro digits
    unfold decimal
    by_cases hnil : digits = []
    · simp [hnil]
    · rw [if_neg hnil]
      by_cases hall : digits.all Char.isDigit = true
      · have hboth : digits ≠ [] ∧ digits.all Char.isDigit = true := ⟨hnil, hall⟩
        rw [if_pos hall, if_pos hboth, Option.filter_some]
        simp only [decide_eq_true_eq]
      · have hboth : ¬ (digits ≠ [] ∧ digits.all Char.isDigit = true) :=
          fun h => hall h.2
        rw [if_neg hall, if_neg hboth]
        rfl
  have hparse : parseU64 cs = (number cs).filter fun n => n < 2 ^ 64 := by
    rcases number_cases cs with ⟨rest, rfl, hnumber⟩ | ⟨hplus, hnumber⟩
    · rw [hnumber]
      exact hdigits rest
    · rw [hnumber, ← hdigits cs]
      unfold parseU64
      split
      · next rest => exact absurd rfl (hplus rest)
      · rfl
  rw [hparse, Option.filter_eq_some_iff]
  simp

/-- A text with another character is no number. -/
theorem parseU64_eq_none (hc : c ∈ cs) (hletter : isNumeral c = false) : parseU64 cs = none := by
  cases h : parseU64 cs with
  | none => rfl
  | some n =>
    have hnum := isNumeral_of_number (parseU64_eq_some.1 h).1 c hc
    rw [hletter] at hnum
    cases hnum

/-- A number that was read is below the modulus as it is. -/
theorem parseU64_mod (cs : List Char) :
    (parseU64 cs).map (fun n => n * 1 % 2 ^ 64) = parseU64 cs := by
  cases h : parseU64 cs with
  | none => rfl
  | some n => rw [Option.map_some, Nat.mul_one, Nat.mod_eq_of_lt (parseU64_eq_some.1 h).2]

theorem stripSuffix_eq (cs : List Char) (c : Char) : stripSuffix cs c = stripEnd cs [c] := by
  ext rest
  rw [stripEnd_eq_some]
  unfold stripSuffix
  constructor
  · intro h
    split at h
    · next hlast =>
      cases h
      exact (List.dropLast_append_getLast? c hlast).symm
    · cases h
  · intro h
    rw [h, if_pos (List.getLast?_concat ..), List.dropLast_concat]

theorem stripEnd_nil (cs : List Char) : stripEnd cs [] = some cs :=
  stripEnd_eq_some.2 (List.append_nil cs).symm

/-- A text that ends otherwise has nothing taken off. -/
theorem stripEnd_other (back : List Char)
    (hcs : cs.getLast? = some c) (hback : back.getLast?.any (· != c) = true) :
    stripEnd cs back = none := by
  refine Option.eq_none_iff_forall_not_mem.2 fun rest hrest => ?_
  rw [stripEnd_eq_some.1 hrest, List.getLast?_append] at hcs
  obtain ⟨d, hd, hne⟩ := (Option.any_eq_true _ _).1 hback
  rw [hd] at hcs
  cases hcs
  exact absurd rfl (bne_iff_ne.1 hne)

theorem mem_trim_or_white (h : c ∈ cs) : isWhitespace c = true ∨ c ∈ trim cs := by
  have hdrop : ∀ {ds : List Char}, c ∈ ds →
      isWhitespace c = true ∨ c ∈ ds.dropWhile isWhitespace := by
    intro ds hds
    rw [← List.takeWhile_append_dropWhile (p := isWhitespace) (l := ds)] at hds
    rcases List.mem_append.1 hds with hds | hds
    · exact Or.inl (List.mem_takeWhile_imp hds)
    · exact Or.inr hds
  rcases hdrop h with hwhite | hfront
  · exact Or.inl hwhite
  · rcases hdrop (List.mem_reverse.2 hfront) with hwhite | hback
    · exact Or.inl hwhite
    · exact Or.inr (List.mem_reverse.2 hback)

theorem trim_trim (cs : List Char) : trim (trim cs) = trim cs := by
  unfold trim
  have hfront : (cs.dropWhile isWhitespace).dropWhile isWhitespace
      = cs.dropWhile isWhitespace := List.dropWhile_idempotent isWhitespace cs
  generalize cs.dropWhile isWhitespace = a at hfront ⊢
  have hback : (a.reverse.dropWhile isWhitespace).dropWhile isWhitespace
      = a.reverse.dropWhile isWhitespace := List.dropWhile_idempotent isWhitespace _
  have hpre : (a.reverse.dropWhile isWhitespace).reverse <+: a := by
    rw [← List.reverse_suffix, List.reverse_reverse]
    exact List.dropWhile_suffix isWhitespace
  generalize a.reverse.dropWhile isWhitespace = b at hback hpre ⊢
  -- the front of what is left is the front of what there was
  have hkeep : b.reverse.dropWhile isWhitespace = b.reverse := by
    rw [List.dropWhile_eq_self_iff] at hfront ⊢
    intro hpos hwhite
    obtain ⟨rest, rfl⟩ := hpre
    refine hfront (Nat.lt_of_lt_of_le hpos (by simp)) ?_
    simpa [List.getElem_append_left hpos] using hwhite
  rw [hkeep, List.reverse_reverse, hback]

-- ==== durations in seconds

/-- The units of `parse_duration_secs`; nothing may stand between the
number and its unit. -/
def durationUnits : Units where
  table := [(['s'], 1), (['m'], 60), (['h'], 3600), ([], 1)]
  clean := id
  inNumber := isNumeral
  clean_inNumber := fun _ _ h => isNumeral_of_number h
  unit_inNumber := by simp [isNumeral, Char.isDigit]
  functional := by decide

theorem parseDurationSecs_eq (s : String) : parseDurationSecs s
    = Units.readAny (2 ^ 64) parseU64 durationUnits.table (trim s.toList) := by
  unfold parseDurationSecs
  generalize trim s.toList = cs
  simp only [durationUnits, Units.readAny, stripSuffix_eq, stripEnd_nil, Option.bind_some,
    parseU64_mod, Option.or_none]
  -- a unit at the end leaves nothing to the others, nor a number
  cases hs : stripEnd cs ['s'] with
  | some num =>
    obtain rfl := stripEnd_eq_some.1 hs
    have hlast : (num ++ ['s']).getLast? = some 's' := List.getLast?_concat ..
    rw [stripEnd_other ['m'] hlast rfl, stripEnd_other ['h'] hlast rfl,
      parseU64_eq_none (c := 's') (by simp) rfl]
    simp
  | none =>
    cases hm : stripEnd cs ['m'] with
    | some num =>
      obtain rfl := stripEnd_eq_some.1 hm
      rw [stripEnd_other ['h'] (List.getLast?_concat ..) rfl,
        parseU64_eq_none (c := 'm') (by simp) rfl]
      simp
    | none =>
      cases hh : stripEnd cs ['h'] with
      | some num =>
        obtain rfl := stripEnd_eq_some.1 hh
        rw [parseU64_eq_none (c := 'h') (by simp) rfl]
        simp
      | none => simp

/-- The answers are the quantities whose number has 64 bits. -/
theorem parseDurationSecs_eq_some {s : String} {v : Nat} : parseDurationSecs s = some v
    ↔ ∃ n unit, durationUnits.Quantity (trim s.toList) n unit ∧ n < 2 ^ 64
      ∧ v = n * unit % 2 ^ 64 := by
  rw [parseDurationSecs_eq]
  exact Units.readAny_eq_some_iff (U := durationUnits) fun _ _ => parseU64_eq_some

-- ==== numbers with blanks around

/-- A character of a number or a blank beside it. -/
def isSpaced (c : Char) : Bool := isNumeral c || isWhitespace c

theorem isSpaced_of_number {num : List Char} {n : Nat} (h : number (trim num) = some n) :
    ∀ c ∈ num, isSpaced c = true := by
  intro c hc
  unfold isSpaced
  rcases mem_trim_or_white hc with hwhite | htrim
  · rw [hwhite, Bool.or_true]
  · rw [isNumeral_of_number h c htrim, Bool.true_or]

/-- The units of `logind.conf`. -/
def logindUnits : Units where
  table := [(['m', 'i', 'n'], 60), (['h'], 3600), (['s'], 1), ([], 1)]
  clean := trim
  inNumber := isSpaced
  clean_inNumber := fun _ _ h => isSpaced_of_number h
  unit_inNumber := by simp [isSpaced, isNumeral, Char.isDigit, isWhitespace]
  functional := by decide

def asSecs (d : Duration) : Nat := d / 1000000000

theorem asSecs_fromSecs (n : Nat) : asSecs (fromSecs n) = n :=
  Nat.mul_div_cancel n (by decide)

theorem parseDurationSec_eq (s : String) : (Logind.parseDurationSec s).map asSecs
    = Units.readAny (2 ^ 64) (fun num => parseU64 (trim num)) logindUnits.table
        (trim s.toList) := by
  have hclean := trim_trim s.toList
  unfold Logind.parseDurationSec
  generalize trim s.toList = cs at hclean ⊢
  have hmin : "min".toList = ['m', 'i', 'n'] := rfl
  simp only [logindUnits, Units.readAny, stripSuffix_eq, stripEnd_nil, Option.bind_some, hclean,
    parseU64_mod, Option.or_none, hmin]
  cases hbare : parseU64 cs with
  | some n =>
    -- a number ends in no unit
    have hno : ∀ (back : List Char) (c : Char), c ∈ back → isNumeral c = false →
        stripEnd cs back = none := by
      intro back c hc hletter
      refine Option.eq_none_iff_forall_not_mem.2 fun num hnum => ?_
      rw [stripEnd_eq_some.1 hnum,
        parseU64_eq_none (List.mem_append_right num hc) hletter] at hbare
      cases hbare
    rw [hno ['m', 'i', 'n'] 'm' (by simp) rfl, hno ['h'] 'h' (by simp) rfl,
      hno ['s'] 's' (by simp) rfl]
    simp [asSecs_fromSecs]
  | none =>
    cases hm : stripEnd cs ['m', 'i', 'n'] with
    | some num =>
      obtain rfl := stripEnd_eq_some.1 hm
      have hlast : (num ++ ['m', 'i', 'n']).getLast? = some 'n' := by simp
      rw [stripEnd_other ['h'] hlast rfl, stripEnd_other ['s'] hlast rfl]
      simp [Function.comp_def, asSecs_fromSecs]
    | none =>
      cases hh : stripEnd cs ['h'] with
      | some num =>
        obtain rfl := stripEnd_eq_some.1 hh
        rw [stripEnd_other ['s'] (List.getLast?_concat ..) rfl]
        simp [Function.comp_def, asSecs_fromSecs]
      | none =>
        cases stripEnd cs ['s'] with
        | some num => simp [Function.comp_def, asSecs_fromSecs]
        | none => simp

-- ==== sizes

/-- The units of `parse_bytes`. -/
def byteUnits : Units where
  table := [(['K'], 1024), (['k'], 1024), (['M'], 1024 * 1024), (['m'], 1024 * 1024),
    (['G'], 1024 * 1024 * 1024), (['g'], 1024 * 1024 * 1024), ([], 1)]
  clean := trim
  inNumber := isSpaced
  clean_inNumber := fun _ _ h => isSpaced_of_number h
  unit_inNumber := by simp [isSpaced, isNumeral, Char.isDigit, isWhitespace]
  functional := by decide

/-- A branch of `parse_bytes` is two units of the table. -/
theorem bytesWith_or {upper lower : Char} (h : upper ≠ lower) (cs : List Char) (unit : Nat)
    (rest : Option Nat) : (bytesWith cs upper lower unit).or rest
    = ((stripEnd cs [upper]).bind fun num =>
          (parseU64 (trim num)).map fun n => n * unit % 2 ^ 64).or
        (((stripEnd cs [lower]).bind fun num =>
          (parseU64 (trim num)).map fun n => n * unit % 2 ^ 64).or rest) := by
  unfold bytesWith
  rw [stripSuffix_eq, stripSuffix_eq]
  cases hupper : stripEnd cs [upper] with
  | none => rfl
  | some num =>
    obtain rfl := stripEnd_eq_some.1 hupper
    rw [stripEnd_other [lower] (List.getLast?_concat ..) (bne_iff_ne.2 h.symm)]
    cases (parseU64 (trim num)).map fun n => n * unit % 2 ^ 64 with
    | none => rfl
    | some v => rfl

/-- What is passed on unread means the number that it is, if any. -/
theorem number_parseBytes (s : String) : number (parseBytes s).toList
    = (Units.readAny (2 ^ 64) (fun num => parseU64 (trim num)) byteUnits.table
        (trim s.toList)).or (number (trim s.toList)) := by
  have hclean := trim_trim s.toList
  unfold parseBytes
  generalize trim s.toList = cs at hclean ⊢
  have hlast : (parseU64 cs).or (number cs) = number cs := by
    cases h : parseU64 cs with
    | none => rfl
    | some n =>
      rw [(parseU64_eq_some.1 h).1]
      rfl
  simp only [byteUnits, Units.readAny, stripEnd_nil, Option.bind_some, hclean, parseU64_mod,
    Option.or_none]
  rw [← bytesWith_or (by decide), ← bytesWith_or (by decide), ← bytesWith_or (by decide)]
  cases bytesWith cs 'K' 'k' 1024 with
  | some v => exact number_toString v
  | none =>
    cases bytesWith cs 'M' 'm' (1024 * 1024) with
    | some v => exact number_toString v
    | none =>
      cases bytesWith cs 'G' 'g' (1024 * 1024 * 1024) with
      | some v => exact number_toString v
      | none =>
        rw [String.toList_ofList]
        exact hlast.symm

-- ==== exact unless the product wraps

/-- No answer is no wrong answer. -/
private theorem exact_none (U : Units) (text : List Char) : U.Exact text none := by
  intro v hv
  cases hv

theorem parseDurationSecs_exact_iff (s : String) :
    durationUnits.Exact (trim s.toList) (parseDurationSecs s)
      ↔ durationUnits.Fits (2 ^ 64) (trim s.toList) := by
  rw [parseDurationSecs_eq, ← Units.readAny_exact_iff (U := durationUnits)
    (fun _ _ => parseU64_eq_some) (exact_none _ _), Option.or_none]
  rfl

theorem parseDurationSec_exact_iff (s : String) :
    logindUnits.Exact (trim s.toList) ((Logind.parseDurationSec s).map asSecs)
      ↔ logindUnits.Fits (2 ^ 64) (trim s.toList) := by
  rw [parseDurationSec_eq, ← Units.readAny_exact_iff (U := logindUnits)
    (fun _ _ => parseU64_eq_some) (exact_none _ _), Option.or_none]
  rfl

theorem parseBytes_exact_iff (s : String) :
    byteUnits.Exact (trim s.toList) (number (parseBytes s).toList)
      ↔ byteUnits.Fits (2 ^ 64) (trim s.toList) := by
  rw [number_parseBytes]
  refine Units.readAny_exact_iff (U := byteUnits) (fun _ _ => parseU64_eq_some) ?_
  intro v hv
  rw [← trim_trim] at hv
  exact ⟨v, 1, ⟨_, [], (List.append_nil _).symm, by decide, hv⟩, (Nat.mul_one v).symm⟩

-- ==== the stop timeout

/-- The seconds a stop timeout comes to: those of the text, in 64 bits,
or ten if it is no duration. -/
def StopSecs (text : List Char) (secs : Nat) : Prop :=
  (∃ n unit, durationUnits.Quantity text n unit ∧ n < 2 ^ 64
      ∧ secs = n * unit % 2 ^ 64)
    ∨ (∀ n unit, durationUnits.Quantity text n unit → ¬ n < 2 ^ 64) ∧ secs = 10

theorem stopTimeoutOf_eq {d : ServiceDef} {secs : Nat}
    (h : StopSecs (trim d.shutdown.stopTimeout.toList) secs) :
    World.stopTimeoutOf d = fromSecs secs := by
  unfold World.stopTimeoutOf
  rcases h with ⟨n, unit, hq, hlt, rfl⟩ | ⟨hno, rfl⟩
  · rw [parseDurationSecs_eq_some.2 ⟨n, unit, hq, hlt, rfl⟩]
    rfl
  · cases hparse : parseDurationSecs d.shutdown.stopTimeout with
    | none => rfl
    | some v =>
      obtain ⟨n, unit, hq, hlt, -⟩ := parseDurationSecs_eq_some.1 hparse
      exact absurd hlt (hno n unit hq)

namespace World

/-- The clock's next but one reading. -/
def secondReading (w : World) : Instant := w.readClock.2.readClock.1

theorem readClock_congr {w v : World} (hnow : v.now = w.now)
    (hjitter : v.env.jitter = w.env.jitter) :
    v.readClock.1 = w.readClock.1 ∧ v.readClock.2.now = w.readClock.2.now
      ∧ v.readClock.2.env.jitter = w.readClock.2.env.jitter := by
  unfold readClock
  rw [hjitter]
  cases w.env.jitter with
  | nil => exact ⟨hnow, hnow, hjitter⟩
  | cons d rest =>
    refine ⟨?_, ?_, rfl⟩
    · rw [hnow]
    · rw [hnow]

/-- A service with a process is stopped without overflow if and only if
its timeout fits the clock at the second reading. -/
theorem stopServiceGraceful_isSome_iff {w : World} {name : NodeId} {wk : WorkerNode}
    {pid : Pid} (hwk : w.tree.getWorker name = some wk) (hpid : wk.pid = some pid) :
    (w.stopServiceGraceful name).isSome = true
      ↔ w.secondReading + stopTimeoutOf wk.svcDef < 2 ^ 63 * 1000000000 := by
  rw [stopServiceGraceful_held hwk hpid]
  generalize parseSignal wk.svcDef.shutdown.stopSignal = sig
  generalize hv : w.runStopExec name wk.svcDef.shutdown.stopExec = v
  generalize stopTimeoutOf wk.svcDef = timeout
  obtain ⟨hnow, henv⟩ : v.now = w.now ∧ v.env = w.env := by
    rw [← hv]
    unfold runStopExec
    split
    · exact ⟨rfl, rfl⟩
    · exact ⟨rfl, rfl⟩
  -- neither the signal nor the marked worker changes what the clock says
  obtain ⟨hfirst, hnow', hjitter'⟩ : (v.note (.kill pid sig)).readClock.1 = w.readClock.1
      ∧ (v.note (.kill pid sig)).readClock.2.now = w.readClock.2.now
      ∧ (v.note (.kill pid sig)).readClock.2.env.jitter = w.readClock.2.env.jitter :=
    readClock_congr hnow (congrArg Env.jitter henv)
  have hsecond : ∀ d, (v.signalled name pid sig d).readClock.1 = w.secondReading := by
    intro d
    exact (readClock_congr (v := v.signalled name pid sig d) hnow' hjitter').1
  have hle : w.readClock.1 ≤ w.secondReading := by
    have hread := (Idle.readClock w.readClock.2).now
    rw [readClock_now w, readClock_now w.readClock.2] at hread
    exact hread
  simp only [hfirst, hsecond]
  unfold addDuration
  by_cases hroom : w.secondReading + timeout < 2 ^ 63 * 1000000000
  · have hroom' : w.readClock.1 + timeout < 2 ^ 63 * 1000000000 :=
      lt_of_le_of_lt (Int.add_le_add_right hle timeout) hroom
    rw [if_pos hroom', if_pos hroom]
    exact iff_of_true rfl hroom
  · refine iff_of_false ?_ hroom
    rw [if_neg hroom]
    simp

end World

/-- For every text, each parser returns only the exact product of the
number and the unit if and only if that product fits 64 bits, and the
deadlines of a service with that stop timeout are computed without
overflow if and only if the timeout fits the clock. -/
theorem quantities_exact_iff (s : String) :
    (durationUnits.Exact (trim s.toList) (parseDurationSecs s)
      ↔ durationUnits.Fits (2 ^ 64) (trim s.toList))
    ∧ (logindUnits.Exact (trim s.toList) ((Logind.parseDurationSec s).map asSecs)
      ↔ logindUnits.Fits (2 ^ 64) (trim s.toList))
    ∧ (byteUnits.Exact (trim s.toList) (number (parseBytes s).toList)
      ↔ byteUnits.Fits (2 ^ 64) (trim s.toList))
    ∧ ∀ (w : World) (name : NodeId) (wk : WorkerNode) (pid : Pid) (secs : Nat),
      w.tree.getWorker name = some wk → wk.pid = some pid →
      wk.svcDef.shutdown.stopTimeout = s → StopSecs (trim s.toList) secs →
      ((w.stopServiceGraceful name).isSome = true
        ↔ w.secondReading + fromSecs secs < 2 ^ 63 * 1000000000) := by
  refine ⟨parseDurationSecs_exact_iff s, parseDurationSec_exact_iff s, parseBytes_exact_iff s, ?_⟩
  intro w name wk pid secs hwk hpid htext hsecs
  subst htext
  rw [World.stopServiceGraceful_isSome_iff hwk hpid, stopTimeoutOf_eq hsecs]

/-- The default stop timeout is ten seconds, and the service of
`soloRunning` is stopped with it. -/
theorem default_stop_timeout_exact : (∀ v, parseDurationSecs "10s" = some v → v = 10)
    ∧ (soloRunning.world.stopServiceGraceful "a").isSome = true := by
  have htext : trim "10s".toList = ['1', '0'] ++ ['s'] := by decide
  have hten : durationUnits.Quantity (trim "10s".toList) 10 1 :=
    ⟨['1', '0'], ['s'], htext, by decide, by decide⟩
  obtain ⟨hexact, -, -, hstop⟩ := quantities_exact_iff "10s"
  constructor
  · intro v hv
    have hfits : durationUnits.Fits (2 ^ 64) (trim "10s".toList) := by
      intro n unit hq _
      obtain ⟨rfl, rfl⟩ := hten.unique hq
      decide
    obtain ⟨n, unit, hq, rfl⟩ := hexact.2 hfits v hv
    obtain ⟨rfl, rfl⟩ := hten.unique hq
    rfl
  · have hsecs : StopSecs (trim "10s".toList) 10 := by
      left
      exact ⟨10, 1, hten, by decide, by decide⟩
    apply (hstop soloRunning.world "a" { newWorker soloDef "root" 0 with
      pid := some 100, state := .running } 100 10 (by decide) rfl rfl hsecs).2
    decide

/-- A service that is to be stopped within 2^63 seconds. -/
def patientDef : ServiceDef :=
  { service := { name := "a", exec := ["/bin/a"] }
    shutdown := { stopTimeout := "9223372036854775808" } }

/-- Its manager, with the service running. -/
def patientRunning : World := (Manager.oneBatch [] [patientDef] [some 100]).world

/-- Each product wraps: a timeout of some 10^17 minutes is 44 seconds, one
of some 10^15 hours is 3584, and a limit of 16 exbibytes is none. And
stopping the patient service overflows the clock. -/
theorem quantities_wrap : parseDurationSecs "307445734561825861m" = some 44
    ∧ ¬ durationUnits.Exact (trim "307445734561825861m".toList)
        (parseDurationSecs "307445734561825861m")
    ∧ Logind.parseDurationSec "5124095576030432h" = some (fromSecs 3584)
    ∧ ¬ logindUnits.Exact (trim "5124095576030432h".toList)
        ((Logind.parseDurationSec "5124095576030432h").map asSecs)
    ∧ parseBytes "17179869184G" = "0"
    ∧ ¬ byteUnits.Exact (trim "17179869184G".toList) (number (parseBytes "17179869184G").toList)
    ∧ patientRunning.stopServiceGraceful "a" = none := by
  refine ⟨by decide, ?_, by decide, ?_, by decide, ?_, by decide⟩
  · rw [parseDurationSecs_exact_iff]
    intro hfits
    exact absurd (hfits 307445734561825861 60
      ⟨"307445734561825861".toList, ['m'], by decide, by decide, by decide⟩ (by decide))
      (by decide)
  · rw [parseDurationSec_exact_iff]
    intro hfits
    exact absurd (hfits 5124095576030432 3600
      ⟨"5124095576030432".toList, ['h'], by decide, by decide, by decide⟩ (by decide))
      (by decide)
  · rw [parseBytes_exact_iff]
    intro hfits
    exact absurd (hfits 17179869184 (1024 * 1024 * 1024)
      ⟨"17179869184".toList, ['G'], by decide, by decide, by decide⟩ (by decide))
      (by decide)

end Dynamod.Svmgr
