/-
Which lines of the log are kept.

A run of `append` is followed with two records beside it: the lines
appended so far, and every rotation with its name and its lines. The
directory should hold the last five rotations (`Holds`). A rotation keeps
that up exactly if its name is not one of the four files that stay, and
if the file that makes room for it is the first by name (`holds_rotate`):
rotations within one second have the same name, and `log-10.log` sorts
before `log-9.log`.
-/
import Dynamod.Lib.Runs
import Dynamod.Logd.Storage

namespace Dynamod.Logd

open Lib

/-- A rotation: the name of the file and its lines. -/
abbrev Rotation := String × List String

variable {oldest : Rotation}

def lastOf {α : Type} (k : Nat) (xs : List α) : List α := xs.drop (xs.length - k)

/-- The directory holds these files and no others. -/
structure Holds (files : HashMap String (List String)) (rs : List Rotation) : Prop where
  names : (rs.map Prod.fst).Nodup
  lookup : ∀ name lines, files.lookup name = some lines ↔ (name, lines) ∈ rs

-- ==== the last ones

section LastOf

variable {α : Type} {k : Nat} {xs : List α}

theorem lastOf_of_le (h : xs.length ≤ k) : lastOf k xs = xs := by
  rw [lastOf, Nat.sub_eq_zero_of_le h, List.drop_zero]

theorem lastOf_snoc (x : α) : lastOf (k + 1) (xs ++ [x]) = lastOf k xs ++ [x] := by
  unfold lastOf
  rw [List.length_append, List.length_singleton, Nat.add_sub_add_right,
    List.drop_append_of_le_length (Nat.sub_le _ _)]

theorem lastOf_suffix : lastOf k xs <:+ xs := List.drop_suffix _ _

theorem length_lastOf : (lastOf k xs).length = min k xs.length := by
  rw [lastOf, List.length_drop]
  omega

/-- Of a long list, one more is one before the last `k`. -/
theorem lastOf_succ (h : k < xs.length) :
    ∃ x, xs.reverse[k]? = some x ∧ lastOf (k + 1) xs = x :: lastOf k xs := by
  have hlt : xs.length - (k + 1) < xs.length := by omega
  have hnext : xs.length - k = xs.length - (k + 1) + 1 := by omega
  have hback : xs.length - 1 - k = xs.length - (k + 1) := by omega
  refine ⟨xs[xs.length - (k + 1)], ?_, ?_⟩
  · rw [List.getElem?_reverse h, hback, List.getElem?_eq_getElem hlt]
  · rw [lastOf, lastOf, hnext, List.drop_eq_getElem_cons hlt]

end LastOf

-- ==== the files

section Files

variable {files : HashMap String (List String)} {rs : List Rotation} {name : String}
  {lines : List String}

theorem Holds.mem_keys (h : Holds files rs) : name ∈ files.keys ↔ name ∈ rs.map Prod.fst := by
  rw [Finmap.mem_keys, Finmap.mem_iff, List.mem_map]
  constructor
  · rintro ⟨lines, hlines⟩
    exact ⟨(name, lines), (h.lookup name lines).1 hlines, rfl⟩
  · rintro ⟨⟨name', lines⟩, hmem, rfl⟩
    exact ⟨lines, (h.lookup name' lines).2 hmem⟩

/-- A file under a new name joins the others. -/
theorem Holds.insert_new (h : Holds files rs) (hname : name ∉ rs.map Prod.fst) :
    Holds (files.insert name lines) (rs ++ [(name, lines)]) := by
  constructor
  · rw [List.map_append, List.map_singleton, ← List.concat_eq_append]
    exact h.names.concat hname
  · intro name' lines'
    rw [HashMap.lookup_insert_ite, List.mem_append, List.mem_singleton, Prod.mk.injEq]
    split
    · next heq =>
      subst heq
      have hold : (name', lines') ∉ rs := fun hin => hname (List.mem_map_of_mem hin)
      rw [or_iff_right hold, Option.some.injEq, and_iff_right rfl]
      exact eq_comm
    · next hne =>
      rw [h.lookup, or_iff_left fun heq => hne heq.1]

/-- The oldest file is replaced by one of the same name, or is removed
while another one is added. -/
theorem Holds.replace (h : Holds files (oldest :: rs)) (hname : name ∉ rs.map Prod.fst) :
    Holds ((files.erase oldest.1).insert name lines) (rs ++ [(name, lines)]) := by
  obtain ⟨hnot, hnodup⟩ := List.nodup_cons.1 (List.map_cons ▸ h.names)
  have hrest : Holds (files.erase oldest.1) rs := by
    refine ⟨hnodup, fun name' lines' => HashMap.lookup_erase_eq_some.trans ?_⟩
    rw [h.lookup, List.mem_cons]
    constructor
    · rintro ⟨hne, hin⟩
      exact hin.resolve_left fun heq => hne (heq ▸ rfl)
    · intro hin
      exact ⟨fun heq => hnot (heq ▸ List.mem_map_of_mem hin), Or.inr hin⟩
  exact hrest.insert_new hname

-- ==== the cleanup

theorem isLogName_rotatedName (secs : Nat) : isLogName (rotatedName secs) = true := by
  unfold isLogName
  rw [Bool.and_eq_true]
  constructor
  · have hname : rotatedName secs = "log-" ++ (toString secs ++ ".log") :=
      String.append_assoc ..
    rw [hname]
    exact startsWith_append _ _
  · exact endsWith_append _ _

/-- The names in the order of the cleanup. -/
theorem Holds.sorted (h : Holds files rs) (hlog : ∀ r ∈ rs, isLogName r.1 = true) :
    ∃ sorted : List String, sorted = IterOrder.sortedList (files.keys.filter fun n => isLogName n)
      ∧ sorted.Pairwise (· ≤ ·) ∧ sorted.Perm (rs.map Prod.fst) := by
  refine ⟨_, rfl, IterOrder.pairwise_sortedList _, ?_⟩
  refine (List.perm_ext_iff_of_nodup (IterOrder.sorted _).nodup h.names).2 fun n => ?_
  refine ((IterOrder.sorted _).mem_iff n).trans ?_
  rw [Finset.mem_filter, h.mem_keys]
  refine and_iff_left_of_imp fun hin => ?_
  obtain ⟨r, hr, rfl⟩ := List.mem_map.1 hin
  exact hlog r hr

theorem Holds.cleanup_few (h : Holds files rs) (hlog : ∀ r ∈ rs, isLogName r.1 = true)
    (hlen : rs.length ≤ keepLogs) : cleanupOldLogs files = files := by
  obtain ⟨sorted, hsorted, -, hperm⟩ := h.sorted hlog
  have hzero : sorted.length - keepLogs = 0 := by
    rw [hperm.length_eq, List.length_map]
    omega
  unfold cleanupOldLogs
  rw [← hsorted]
  dsimp only
  rw [hzero, List.take_zero, List.foldl_nil]

/-- Of six files the one with the least name is removed. -/
theorem Holds.cleanup_six (h : Holds files rs) (hlog : ∀ r ∈ rs, isLogName r.1 = true)
    (hlen : rs.length = keepLogs + 1) :
    ∃ least ∈ rs.map Prod.fst, (∀ n ∈ rs.map Prod.fst, least ≤ n)
      ∧ cleanupOldLogs files = files.erase least := by
  obtain ⟨sorted, hsorted, hordered, hperm⟩ := h.sorted hlog
  have hcount : sorted.length = keepLogs + 1 := by rw [hperm.length_eq, List.length_map, hlen]
  cases sorted with
  | nil => cases hcount
  | cons least rest =>
    refine ⟨least, hperm.subset List.mem_cons_self, fun n hn => ?_, ?_⟩
    · rcases List.mem_cons.1 (hperm.symm.subset hn) with rfl | hn
      · exact le_refl n
      · exact List.rel_of_pairwise_cons hordered hn
    · unfold cleanupOldLogs
      rw [← hsorted]
      dsimp only
      rw [hcount, Nat.add_sub_cancel_left]
      rfl

-- ==== a rotation

/-- The name is not that of a file that stays, and the file that makes
room has the same name or the least of all. -/
def MakesRoom (rotated : List Rotation) (name : String) : Prop :=
  name ∉ (lastOf 4 rotated).map Prod.fst
    ∧ ∀ oldest ∈ rotated.reverse[4]?,
      oldest.1 = name ∨ ∀ n ∈ (lastOf 4 rotated).map Prod.fst ++ [name], oldest.1 < n

/-- A file that cannot be told from one that stays is lost. -/
theorem not_holds_of_mem (hname : name ∈ rs.map Prod.fst) :
    ¬ Holds files (rs ++ [(name, lines)]) := by
  intro h
  have hnames := h.names
  rw [List.map_append, List.map_singleton, ← List.concat_eq_append, List.nodup_concat] at hnames
  exact hnames.1 hname

/-- One more file with the name of a log. -/
theorem logNames_snoc (hlog : ∀ r ∈ rs, isLogName r.1 = true) (hlogname : isLogName name = true) :
    ∀ r ∈ rs ++ [(name, lines)], isLogName r.1 = true := by
  intro r hr
  rcases List.mem_append.1 hr with hr | hr
  · exact hlog r hr
  · rw [List.mem_singleton.1 hr]
    exact hlogname

/-- If all but the oldest are left, it is the oldest that was removed. -/
theorem Holds.erased_oldest (h : Holds files (oldest :: rs)) {gone : String}
    (h' : Holds (files.erase gone) rs) : oldest.1 = gone := by
  obtain ⟨hnot, -⟩ := List.nodup_cons.1 (List.map_cons ▸ h.names)
  by_contra hne
  have hthere : (files.erase gone).lookup oldest.1 = some oldest.2 :=
    HashMap.lookup_erase_eq_some.2 ⟨hne, (h.lookup _ _).2 List.mem_cons_self⟩
  exact hnot (List.mem_map_of_mem ((h'.lookup _ _).1 hthere))

/-- Six files are cut down to the five newest exactly if the oldest has
the least name. -/
theorem Holds.rotate_full (h : Holds files (oldest :: rs))
    (hlog : ∀ r ∈ oldest :: rs, isLogName r.1 = true) (hlen : rs.length = 4)
    (hlogname : isLogName name = true) (hold : oldest.1 ≠ name) (hname : name ∉ rs.map Prod.fst) :
    Holds (cleanupOldLogs (files.insert name lines)) (rs ++ [(name, lines)])
      ↔ ∀ n ∈ rs.map Prod.fst ++ [name], oldest.1 < n := by
  have hnew : name ∉ (oldest :: rs).map Prod.fst := by
    rw [List.map_cons, List.mem_cons]
    exact not_or.2 ⟨fun e => hold e.symm, hname⟩
  have hall : Holds (files.insert name lines) (oldest :: (rs ++ [(name, lines)])) :=
    h.insert_new hnew
  obtain ⟨least, hmem, hleast, hcleanup⟩ :=
    hall.cleanup_six (logNames_snoc hlog hlogname) (by simp [hlen, keepLogs])
  have hnames : (oldest :: (rs ++ [(name, lines)])).map Prod.fst
      = oldest.1 :: (rs.map Prod.fst ++ [name]) := by simp
  have hnodup := hall.names
  rw [hnames] at hmem hleast hnodup
  rw [hcleanup]
  constructor
  · intro h' n hn
    obtain rfl := hall.erased_oldest h'
    refine lt_of_le_of_ne (hleast n (List.mem_cons_of_mem _ hn)) ?_
    rintro rfl
    exact (List.nodup_cons.1 hnodup).1 hn
  · intro hlt
    have hgone : least = oldest.1 := by
      refine (List.mem_cons.1 hmem).resolve_right fun hin => ?_
      exact absurd (hlt least hin) (not_lt.2 (hleast _ List.mem_cons_self))
    rw [hgone, HashMap.erase_insert_comm hold]
    exact h.replace hname

/-- A rotation leaves the last five in the directory exactly if it makes
room for itself. -/
theorem holds_rotate {rotated : List Rotation} (h : Holds files (lastOf 5 rotated))
    (hlog : ∀ r ∈ rotated, isLogName r.1 = true) (hlogname : isLogName name = true) :
    Holds (cleanupOldLogs (files.insert name lines)) (lastOf 5 (rotated ++ [(name, lines)]))
      ↔ MakesRoom rotated name := by
  rw [lastOf_snoc]
  unfold MakesRoom
  by_cases hstays : name ∈ (lastOf 4 rotated).map Prod.fst
  · exact iff_of_false (not_holds_of_mem hstays) fun hroom => hroom.1 hstays
  rw [and_iff_right hstays]
  have hlogs : ∀ r ∈ lastOf 4 rotated ++ [(name, lines)], isLogName r.1 = true :=
    logNames_snoc (fun r hr => hlog r (lastOf_suffix.subset hr)) hlogname
  have hlen : (lastOf 4 rotated).length ≤ 4 := by
    rw [length_lastOf]
    omega
  have hfew : (lastOf 4 rotated ++ [(name, lines)]).length ≤ keepLogs := by
    rw [List.length_append, List.length_singleton]
    exact Nat.succ_le_succ hlen
  by_cases hfull : 4 < rotated.length
  · obtain ⟨oldest, hfifth, ho⟩ := lastOf_succ hfull
    rw [ho] at h
    simp only [hfifth, Option.mem_some_iff, forall_eq']
    by_cases hold : oldest.1 = name
    · refine iff_of_true ?_ (Or.inl hold)
      have hnext : Holds ((files.erase oldest.1).insert name lines) _ := h.replace hstays
      rw [hold, HashMap.insert_erase_self] at hnext
      rw [hnext.cleanup_few hlogs hfew]
      exact hnext
    · rw [or_iff_right hold]
      refine h.rotate_full ?_ ?_ hlogname hold hstays
      · intro r hr
        exact hlog r (lastOf_suffix.subset (ho ▸ hr))
      · rw [length_lastOf]
        omega
  · -- there is room for one more
    have hle : rotated.length ≤ 4 := Nat.not_lt.1 hfull
    rw [lastOf_of_le (Nat.le_succ_of_le hle)] at h
    rw [lastOf_of_le hle] at hstays hlogs hfew ⊢
    have hnext : Holds (files.insert name lines) _ := h.insert_new hstays
    have hnone : rotated.reverse[4]? = none :=
      List.getElem?_eq_none (by rw [List.length_reverse]; exact hle)
    rw [hnone, hnext.cleanup_few hlogs hfew]
    exact iff_of_true hnext fun oldest ho => absurd ho (Option.not_mem_none oldest)

end Files

-- ==== runs

/-- The storage, the lines appended so far, and the rotations. -/
structure Log where
  storage : LogStorage
  lines : List String
  rotated : List Rotation

namespace Log

def start (maxSize : Nat) : Log := { storage := .new maxSize, lines := [], rotated := [] }

def append (log : Log) (a : Append) : Log :=
  { storage := log.storage.append a
    lines := log.lines ++ [a.line]
    rotated :=
      if log.storage.fills a then
        log.rotated ++ [(rotatedName a.later, log.storage.current ++ [a.line])]
      else log.rotated }

/-- The directory holds the last five rotations, and they are, with
`current.log`, the last lines. -/
structure Kept (log : Log) : Prop where
  files : Holds log.storage.files (lastOf 5 log.rotated)
  recent : (lastOf 5 log.rotated).flatMap Prod.snd ++ log.storage.current <:+ log.lines

/-- The rotations and `current.log` are all the lines there were. -/
structure Recorded (log : Log) : Prop where
  lines : log.lines = log.rotated.flatMap Prod.snd ++ log.storage.current
  names : ∀ r ∈ log.rotated, isLogName r.1 = true

/-- A rotation makes room for itself. -/
def Orderly (log : Log) (a : Append) : Prop :=
  log.storage.fills a → MakesRoom log.rotated (rotatedName a.later)

variable {log : Log} {a : Append}

theorem append_rotates (h : log.storage.fills a) : (log.append a).storage.files
      = cleanupOldLogs (log.storage.files.insert (rotatedName a.later)
        (log.storage.current ++ [a.line]))
    ∧ (log.append a).storage.current = []
    ∧ (log.append a).rotated
      = log.rotated ++ [(rotatedName a.later, log.storage.current ++ [a.line])] := by
  have hstorage : log.storage.append a = ((log.storage.write a.line).rotate a.later).push
      { timestamp := a.now, source := a.source, message := a.message } := by
    simp only [LogStorage.append, if_pos h]
  exact ⟨congrArg LogStorage.files hstorage, congrArg LogStorage.current hstorage, if_pos h⟩

theorem append_stays (h : ¬ log.storage.fills a) :
    (log.append a).storage.files = log.storage.files
    ∧ (log.append a).storage.current = log.storage.current ++ [a.line]
    ∧ (log.append a).rotated = log.rotated := by
  have hstorage : log.storage.append a = (log.storage.write a.line).push
      { timestamp := a.now, source := a.source, message := a.message } := by
    simp only [LogStorage.append, if_neg h]
  refine ⟨?_, congrArg LogStorage.current hstorage, if_neg h⟩
  exact (congrArg LogStorage.files hstorage).trans rfl

theorem Recorded.append (h : log.Recorded) (a : Append) : (log.append a).Recorded := by
  have hlines : (log.append a).lines = log.lines ++ [a.line] := rfl
  by_cases hfills : log.storage.fills a
  · obtain ⟨-, hcurrent, hrotated⟩ := append_rotates hfills
    constructor
    · rw [hlines, h.lines, hcurrent, hrotated]
      simp
    · rw [hrotated]
      exact logNames_snoc h.names (isLogName_rotatedName _)
  · obtain ⟨-, hcurrent, hrotated⟩ := append_stays hfills
    constructor
    · rw [hlines, h.lines, hcurrent, hrotated, List.append_assoc]
    · rw [hrotated]
      exact h.names

/-- Of what is recorded, the last rotations are the last lines. -/
theorem Recorded.recent (h : log.Recorded) (k : Nat) :
    (lastOf k log.rotated).flatMap Prod.snd ++ log.storage.current <:+ log.lines := by
  have hsuffix : lastOf k log.rotated <:+ log.rotated := lastOf_suffix
  obtain ⟨before, hsplit⟩ := hsuffix
  refine ⟨before.flatMap Prod.snd, ?_⟩
  rw [h.lines, ← List.append_assoc, ← List.flatMap_append, hsplit]

theorem kept_step (log : Log) (a : Append) (hrec : log.Recorded) (_ : True) (h : log.Kept) :
    (log.append a).Kept ↔ log.Orderly a := by
  have hrec' := hrec.append a
  have hkept : (log.append a).Kept
      ↔ Holds (log.append a).storage.files (lastOf 5 (log.append a).rotated) :=
    ⟨fun h => h.files, fun h => ⟨h, hrec'.recent 5⟩⟩
  rw [hkept]
  by_cases hfills : log.storage.fills a
  · obtain ⟨hfiles, -, hrotated⟩ := append_rotates hfills
    rw [hfiles, hrotated, holds_rotate h.files hrec.names (isLogName_rotatedName _)]
    exact ⟨fun hroom _ => hroom, fun hroom => hroom hfills⟩
  · obtain ⟨hfiles, -, hrotated⟩ := append_stays hfills
    rw [hfiles, hrotated]
    exact iff_of_true h.files fun hf => absurd hf hfills

theorem start_kept (maxSize : Nat) : (start maxSize).Kept := by
  refine ⟨⟨List.nodup_nil, fun name lines => ?_⟩, List.nil_suffix⟩
  exact iff_of_false (Option.some_ne_none lines).symm List.not_mem_nil

/-- In every run the directory holds the last five rotations, and with
`current.log` the last lines, all along exactly if every rotation makes
room for itself. -/
theorem rotations_kept_iff (maxSize : Nat) (calls : List Append) :
    (∀ pre, pre <+: calls → (pre.foldl append (start maxSize)).Kept)
      ↔ Allowed append Orderly (start maxSize) calls :=
  (allowed_iff_kept (fun _ a hrec _ => hrec.append a) kept_step calls _
    ⟨rfl, fun _ hr => absurd hr List.not_mem_nil⟩ (start_kept maxSize) (allowed_true _ _ _)).symm

instance (rotated : List Rotation) (name : String) : Decidable (MakesRoom rotated name) :=
  inferInstanceAs (Decidable (_ ∧ _))

instance (log : Log) (a : Append) : Decidable (log.Orderly a) :=
  inferInstanceAs (Decidable (_ → _))

/-- Calls of `append` at these times. -/
def callsAt (times : List Nat) : List Append :=
  times.map fun secs => { source := "test", message := "line", now := secs, later := secs }

/-- Seven files are filled, at times with as many digits. -/
theorem seven_rotations_kept :
    ((callsAt [11, 12, 14, 17, 20, 21, 25]).foldl append (start 1)).Kept :=
  (rotations_kept_iff 1 _).2 (by decide) _ (List.prefix_refl _)

/-- Two files are filled within one second. -/
def sameSecond : Log := (callsAt [100, 100]).foldl append (start 1)

/-- Six files are filled, the last one at a time with more digits. -/
def moreDigits : Log := (callsAt [5, 6, 7, 8, 9, 10]).foldl append (start 1)

/-- Of two files filled within one second the first is gone. Where the
number of digits grows, the file that was filled last is removed in the
place of the oldest one. -/
theorem rotated_files_lost :
    (sameSecond.rotated.length = 2 ∧ sameSecond.storage.files.keys = {"log-100.log"}
        ∧ ¬ sameSecond.Kept)
      ∧ moreDigits.rotated.map Prod.fst = ["log-5.log", "log-6.log", "log-7.log", "log-8.log",
          "log-9.log", "log-10.log"]
      ∧ "log-10.log" ∉ moreDigits.storage.files ∧ "log-5.log" ∈ moreDigits.storage.files
      ∧ ¬ moreDigits.Kept := by
  have hgone : "log-10.log" ∉ moreDigits.storage.files := by decide
  refine ⟨⟨by decide, by decide, fun h => ?_⟩, by decide, hgone, by decide, fun h => hgone ?_⟩
  · exact absurd h.files.names (by decide)
  · rw [← Finmap.mem_keys, h.files.mem_keys]
    decide

end Log

end Dynamod.Logd
