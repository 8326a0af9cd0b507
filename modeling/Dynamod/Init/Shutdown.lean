/-
The unmounting of all file systems at shutdown (`shutdown.zig`): the
second field of every line of `/proc/mounts` is kept in a table of 256
rows of 256 bytes, and the rows are unmounted from the last to the first.

A function gives the names handed to `umount2`, in the order of the
calls. What a call answers decides no more than the message that is
logged, and is left out.

# The names against the mount table

The lines are cut where they were put together, so every line gives its
mount point back (`Mount.fields`), but as it is written there: blanks and
backslashes of the name stand as octal escapes, which nothing undoes. And
the file is read once, into a buffer, so that the last line may be cut
off, in the middle of its name or before it. `shown` has each mount with
what is read of its line; `unmountAll_exact` says, for every table and
every answer of the kernel, when the names are those of the table.
-/
import Dynamod.Lib.Bytes
import Dynamod.Lib.Lines

namespace Dynamod.Init.Shutdown

open Lib Ascii

/-- The rows of `targets`. -/
def maxTargets : Nat := 256

/-- The bytes of a row. -/
def targetLen : Nat := 256

/-- The bytes of `mounts_buf`. -/
def mountsBufLen : Nat := 32768

/-- The loop over the lines, with the rows filled so far. -/
def collectTargets (targets : List (List UInt8)) : List (List UInt8) → List (List UInt8)
  | [] => targets
  | line :: lines =>
    if maxTargets ≤ targets.length then targets
    else
      -- the first field is the device
      match (tokens space line).tail with
      | [] => collectTargets targets lines
      | mountpoint :: _ =>
        if mountpoint = [slash] then collectTargets targets lines
        else if targetLen ≤ mountpoint.length then collectTargets targets lines
        else collectTargets (targets ++ [mountpoint]) lines

def unmountFromProc (data : List UInt8) : List (List UInt8) :=
  (collectTargets [] (tokens lineFeed data)).reverse

def unmountHardcoded : List (List UInt8) :=
  ["/sys/fs/cgroup", "/dev/shm", "/dev/pts", "/run", "/dev", "/sys", "/proc"].map utf8

/-- `unmountAll`. The file is read once, and the kernel gives `answer`
bytes of it at most; nothing is read from a file that cannot be opened. -/
def unmountAll (mounts : Option (List UInt8)) (answer : Nat) : List (List UInt8) :=
  let data := (mounts.getD []).take (min answer mountsBufLen)
  if data ≠ [] then unmountFromProc data else unmountHardcoded

-- ==== the mount table

/-- The bytes that are written as escapes. -/
def Special (c : UInt8) : Prop := c = space ∨ c = tab ∨ c = lineFeed ∨ c = backslash

instance (c : UInt8) : Decidable (Special c) := inferInstanceAs (Decidable (_ ∨ _))

/-- A byte as `/proc/mounts` has it: a backslash and three octal digits
for the special ones. -/
def writeByte (c : UInt8) : List UInt8 :=
  if Special c then [backslash, 48 + c / 64, 48 + c / 8 % 8, 48 + c % 8] else [c]

/-- A name as `/proc/mounts` has it. -/
def writeName (name : List UInt8) : List UInt8 := name.flatMap writeByte

structure Mount where
  device : List UInt8
  mountPoint : List UInt8
  /-- The type, the options and the two numbers behind them. -/
  rest : List UInt8
  device_named : device ≠ []
  absolute : mountPoint.head? = some slash
  rest_line : lineFeed ∉ rest

def Mount.line (m : Mount) : List UInt8 :=
  writeName m.device ++ space :: (writeName m.mountPoint ++ space :: m.rest)

/-- The text of `/proc/mounts`. -/
def procMounts (table : List Mount) : List UInt8 := table.flatMap fun m => m.line ++ [lineFeed]

/-- The mounts but those on the root directory. -/
def belowRoot (table : List Mount) : List Mount :=
  table.filter fun m => m.mountPoint ≠ [slash]

-- ==== the names

theorem notMem_writeByte {c b : UInt8} (hb : b = space ∨ b = lineFeed) : b ∉ writeByte c := by
  by_cases hc : Special c
  · -- the digits of the four escapes
    rcases hc with rfl | rfl | rfl | rfl
    all_goals
      rcases hb with rfl | rfl
      · decide
      · decide
  · rw [writeByte, if_neg hc, List.mem_singleton]
    rintro rfl
    exact hc (hb.imp_right fun h => Or.inr (Or.inl h))

theorem notMem_writeName {b : UInt8} (hb : b = space ∨ b = lineFeed) (name : List UInt8) :
    b ∉ writeName name := by
  intro hin
  obtain ⟨c, -, hc⟩ := List.mem_flatMap.1 hin
  exact notMem_writeByte hb hc

theorem length_writeByte (c : UInt8) : (writeByte c).length = if Special c then 4 else 1 := by
  unfold writeByte
  split
  · rfl
  · rfl

theorem length_le_writeName (name : List UInt8) : name.length ≤ (writeName name).length := by
  unfold writeName
  induction name with
  | nil => exact Nat.le_refl 0
  | cons c name ih =>
    have hc : 1 ≤ (writeByte c).length := by
      rw [length_writeByte]
      split
      · decide
      · decide
    rw [List.flatMap_cons, List.length_append, List.length_cons]
    omega

theorem writeName_ne_nil {name : List UInt8} (h : name ≠ []) : writeName name ≠ [] := by
  intro e
  have hle := length_le_writeName name
  rw [e, List.length_nil] at hle
  exact h (List.length_eq_zero_iff.1 (Nat.le_zero.1 hle))

-- ==== the lines

theorem Mount.mountPoint_ne_nil (m : Mount) : m.mountPoint ≠ [] := by
  intro e
  have h := m.absolute
  rw [e] at h
  cases h

/-- What is shown of the name of a mount by what is read of its line. -/
def Mount.seen (m : Mount) (piece : List UInt8) : List UInt8 :=
  (writeName m.mountPoint).take (piece.length - ((writeName m.device).length + 1))

/-- The tokens of a text without spaces in it. -/
theorem tokens_word {text : List UInt8} (h : space ∉ text) :
    tokens space text = if text = [] then [] else [text] := by
  unfold tokens
  rw [splitOn_rest h, List.filter_singleton]
  by_cases hnil : text = []
  · simp [hnil]
  · simp [hnil]

/-- The second field of what is read of a line is what is shown of the
name, if there is any of it. -/
theorem Mount.fields (m : Mount) (n : Nat) : (tokens space (m.line.take n)).tail.head?
    = if m.seen (m.line.take n) = [] then none else some (m.seen (m.line.take n)) := by
  have hdevice := notMem_writeName (b := space) (Or.inl rfl) m.device
  have hname := notMem_writeName (b := space) (Or.inl rfl) m.mountPoint
  have hlen : (m.line.take n).length = min n m.line.length := List.length_take
  have hline : m.line.length = (writeName m.device).length
      + ((writeName m.mountPoint).length + (m.rest.length + 1) + 1) := by
    simp [Mount.line]
  rw [Mount.seen, hlen]
  by_cases hcut : n ≤ (writeName m.device).length
  · -- cut off before the space behind the device
    rw [Nat.sub_eq_zero_of_le (by omega), List.take_zero, if_pos rfl, Mount.line,
      List.take_append_of_le_length hcut,
      tokens_word fun hin => hdevice (List.mem_of_mem_take hin)]
    split
    · rfl
    · rfl
  obtain ⟨k, rfl⟩ : ∃ k, n = (writeName m.device).length + (k + 1) :=
    ⟨n - (writeName m.device).length - 1, by omega⟩
  rw [Mount.line, List.take_length_add_append, List.take_succ_cons,
    tokens_cons hdevice (writeName_ne_nil m.device_named), List.tail_cons]
  by_cases hshort : k ≤ (writeName m.mountPoint).length
  · -- cut off in the name, or right behind it
    have hmin : min ((writeName m.device).length + (k + 1)) m.line.length
        - ((writeName m.device).length + 1) = k := by omega
    rw [Mount.line] at hmin
    rw [hmin, List.take_append_of_le_length hshort,
      tokens_word fun hin => hname (List.mem_of_mem_take hin)]
    split
    · rfl
    · rfl
  · obtain ⟨j, rfl⟩ : ∃ j, k = (writeName m.mountPoint).length + (j + 1) :=
      ⟨k - (writeName m.mountPoint).length - 1, by omega⟩
    have hwhole : (writeName m.mountPoint).length
        ≤ min ((writeName m.device).length + ((writeName m.mountPoint).length + (j + 1) + 1))
            m.line.length - ((writeName m.device).length + 1) := by omega
    have hne := writeName_ne_nil m.mountPoint_ne_nil
    rw [Mount.line] at hwhole
    rw [List.take_length_add_append, List.take_succ_cons, tokens_cons hname hne,
      List.take_of_length_le hwhole, if_neg hne]
    rfl

theorem Mount.lineFeed_notMem_line (m : Mount) : lineFeed ∉ m.line := by
  have hname := notMem_writeName (b := lineFeed) (Or.inr rfl)
  have hspace : lineFeed ≠ space := by decide
  simp [Mount.line, hname, hspace, m.rest_line]

theorem Mount.line_ne_nil (m : Mount) : m.line ≠ [] :=
  List.append_ne_nil_of_left_ne_nil (writeName_ne_nil m.device_named) _

/-- Each mount with what is read of its line. -/
def shown (n : Nat) (table : List Mount) : List (Mount × List UInt8) :=
  table.zip (cutLines n (table.map Mount.line))

theorem shown_cons (n : Nat) (m : Mount) (table : List Mount) :
    shown n (m :: table) = (m, m.line.take n) :: shown (n - (m.line.length + 1)) table :=
  rfl

theorem tokens_procMounts (n : Nat) (table : List Mount) :
    tokens lineFeed ((procMounts table).take n)
      = ((shown n table).map Prod.snd).filter fun piece => piece ≠ [] := by
  have hlines : ∀ l ∈ table.map Mount.line, lineFeed ∉ l := by
    intro l hl
    obtain ⟨m, -, rfl⟩ := List.mem_map.1 hl
    exact m.lineFeed_notMem_line
  have hmounts : procMounts table = (table.map Mount.line).flatMap (· ++ [lineFeed]) := by
    rw [procMounts, List.flatMap_map]
  have hpieces : (shown n table).map Prod.snd = cutLines n (table.map Mount.line) := by
    rw [shown, List.map_snd_zip (by rw [length_cutLines, List.length_map])]
  rw [hmounts, tokens_take_lines hlines, hpieces]

-- ==== the rows

/-- A line whose row is filled. -/
def Kept (p : Mount × List UInt8) : Prop :=
  p.1.seen p.2 ≠ [] ∧ p.1.seen p.2 ≠ [slash] ∧ (p.1.seen p.2).length < targetLen

instance (p : Mount × List UInt8) : Decidable (Kept p) := inferInstanceAs (Decidable (_ ∧ _))

/-- Nothing is kept of a line of which nothing is read. -/
theorem not_kept_nil (m : Mount) : ¬ Kept (m, []) := fun h => h.1 (by
  rw [Mount.seen, List.length_nil, Nat.zero_sub, List.take_zero])

/-- The rows are the first 256 names that are shown and fit. -/
theorem collectTargets_shown (n : Nat) (table : List Mount) (targets : List (List UInt8))
    (h : targets.length ≤ maxTargets) : collectTargets targets
        (((shown n table).map Prod.snd).filter fun piece => piece ≠ [])
      = (targets ++ ((shown n table).filter Kept).map fun p => p.1.seen p.2).take
          maxTargets := by
  induction table generalizing n targets with
  | nil =>
    rw [shown, List.zip_nil_left, List.filter_nil, List.map_nil, List.map_nil,
      List.append_nil, List.take_of_length_le h]
    rfl
  | cons m table ih =>
    rw [shown_cons, List.map_cons]
    by_cases hnil : m.line.take n = []
    · rw [hnil, List.filter_cons_of_neg (by simp), ih _ targets h,
        List.filter_cons_of_neg (by simpa using not_kept_nil m)]
    rw [List.filter_cons_of_pos (by simpa using hnil), collectTargets]
    split
    · next hfull =>
      rw [List.take_append_of_le_length hfull, List.take_of_length_le h]
    · next hroom =>
      have hfield := m.fields n
      cases htail : (tokens space (m.line.take n)).tail with
      | nil =>
        rw [htail] at hfield
        split at hfield
        · next hseen =>
          rw [List.filter_cons_of_neg (by simp [Kept, hseen])]
          exact ih _ targets h
        · cases hfield
      | cons mountpoint fields =>
        rw [htail] at hfield
        split at hfield
        · cases hfield
        next hseen =>
        cases hfield
        dsimp only
        -- the tests of the loop, in its order
        by_cases hroot : m.seen (m.line.take n) = [slash]
        · rw [if_pos hroot, ih _ targets h, List.filter_cons_of_neg (by simp [Kept, hroot])]
        rw [if_neg hroot]
        by_cases hlong : targetLen ≤ (m.seen (m.line.take n)).length
        · rw [if_pos hlong, ih _ targets h, List.filter_cons_of_neg]
          exact fun hk => Nat.not_le.2 (of_decide_eq_true hk).2.2 hlong
        · have hkept : Kept (m, m.line.take n) := ⟨hseen, hroot, Nat.not_le.1 hlong⟩
          rw [if_neg hlong, ih, List.filter_cons, if_pos (decide_eq_true hkept),
            List.map_cons, List.append_assoc, List.singleton_append]
          rw [List.length_append, List.length_singleton]
          omega

/-- Nothing is kept for the root directory. -/
theorem Kept.below {p : Mount × List UInt8} (h : Kept p) : p.1.mountPoint ≠ [slash] := by
  intro e
  have hroot : writeName [slash] = [slash] := by decide
  obtain ⟨hne, hother, -⟩ := h
  rw [Mount.seen, e, hroot] at hne hother
  cases hk : p.2.length - ((writeName p.1.device).length + 1) with
  | zero =>
    rw [hk] at hne
    exact hne rfl
  | succ k =>
    rw [hk, List.take_succ_cons, List.take_nil] at hother
    exact hother rfl

/-- The mounts below the root, with what is read of their lines. -/
def shownBelow (n : Nat) (table : List Mount) : List (Mount × List UInt8) :=
  (shown n table).filter fun p => p.1.mountPoint ≠ [slash]

theorem map_fst_shownBelow (n : Nat) (table : List Mount) :
    (shownBelow n table).map Prod.fst = belowRoot table := by
  have hfst : (shown n table).map Prod.fst = table := by
    rw [shown, List.map_fst_zip (by rw [length_cutLines, List.length_map])]
  conv_rhs => rw [belowRoot, ← hfst, List.filter_map]
  rfl

/-- Every mount below the root has its name shown, to its end and without
an escape in it, and it fits into a row; and there are not too many. -/
def NamesShown (n : Nat) (table : List Mount) : Prop :=
  (∀ p ∈ shownBelow n table, p.1.seen p.2 = p.1.mountPoint ∧ p.1.mountPoint.length < targetLen)
    ∧ (belowRoot table).length ≤ maxTargets

/-- The rows are the mount points below the root exactly if all their
names are shown. -/
theorem kept_eq_iff (n : Nat) (table : List Mount) :
    (((shown n table).filter Kept).map fun p => p.1.seen p.2).take maxTargets
        = (belowRoot table).map Mount.mountPoint
      ↔ NamesShown n table := by
  have hsub : ((shown n table).filter Kept).Sublist (shownBelow n table) := by
    refine List.monotone_filter_right _ fun p hp => ?_
    exact decide_eq_true (of_decide_eq_true hp).below
  rw [NamesShown, ← map_fst_shownBelow n table, List.map_map, List.length_map]
  constructor
  · intro e
    have hlen := congrArg List.length e
    rw [List.length_take, List.length_map, List.length_map] at hlen
    have hle := hsub.length_le
    -- as many rows as mounts, so every mount has its row
    have hall := hsub.eq_of_length (by omega)
    rw [hall, List.take_of_length_le (by rw [List.length_map]; omega)] at e
    refine ⟨fun p hp => ?_, by omega⟩
    have hname : p.1.seen p.2 = p.1.mountPoint := List.map_inj_left.1 e p hp
    have hkept : Kept p := by
      rw [← hall] at hp
      exact of_decide_eq_true (List.mem_filter.1 hp).2
    have hshort := hkept.2.2
    rw [hname] at hshort
    exact ⟨hname, hshort⟩
  · rintro ⟨hnames, hcount⟩
    have hall : (shown n table).filter Kept = shownBelow n table := by
      refine List.filter_congr fun p hp => ?_
      refine decide_eq_decide.2 ⟨Kept.below, fun hbelow => ?_⟩
      obtain ⟨hname, hshort⟩ := hnames p (List.mem_filter.2 ⟨hp, decide_eq_true hbelow⟩)
      rw [Kept, hname]
      exact ⟨p.1.mountPoint_ne_nil, hbelow, hshort⟩
    rw [hall, List.take_of_length_le (by rw [List.length_map]; exact hcount)]
    exact List.map_congr_left fun p hp => (hnames p hp).1

theorem take_procMounts_eq_nil (n : Nat) (table : List Mount) :
    (procMounts table).take n = [] ↔ n = 0 ∨ table = [] := by
  rw [List.take_eq_nil_iff]
  refine or_congr_right ⟨fun e => ?_, fun e => e ▸ rfl⟩
  cases table with
  | nil => rfl
  | cons m table =>
    have hempty := (List.append_eq_nil_iff.1 e).1
    exact absurd (List.append_eq_nil_iff.1 hempty).1 m.line_ne_nil

/-- Whatever part of the table is read, it is unmounted from its last
mount to its first by the names of the table exactly if all names are
shown; where nothing is read, exactly if its mounts are the ones of the
fixed list. -/
theorem unmountAll_exact (table : List Mount) (answer : Nat) :
    (unmountAll (some (procMounts table)) answer
        = ((belowRoot table).map Mount.mountPoint).reverse
      ↔ if min answer mountsBufLen = 0 ∨ table = []
        then unmountHardcoded = ((belowRoot table).map Mount.mountPoint).reverse
        else NamesShown (min answer mountsBufLen) table)
    ∧ (unmountAll none answer = ((belowRoot table).map Mount.mountPoint).reverse
      ↔ unmountHardcoded = ((belowRoot table).map Mount.mountPoint).reverse) := by
  refine ⟨?_, ?_⟩
  · unfold unmountAll
    rw [Option.getD_some]
    by_cases hnone : min answer mountsBufLen = 0 ∨ table = []
    · rw [if_pos hnone, if_neg (not_not.2 ((take_procMounts_eq_nil _ _).2 hnone))]
    · rw [if_neg hnone, if_pos (mt (take_procMounts_eq_nil _ _).1 hnone), unmountFromProc,
        tokens_procMounts, collectTargets_shown _ _ _ (Nat.zero_le _), List.nil_append,
        List.reverse_inj, kept_eq_iff]
  · rw [unmountAll, Option.getD_none, List.take_nil, if_neg (not_not.2 rfl)]

/-- The root, and a home directory. -/
def rootAndHome : List Mount :=
  [{ device := utf8 "/dev/sda1", mountPoint := utf8 "/", rest := utf8 "ext4 rw 0 0"
     device_named := by decide, absolute := by decide, rest_line := by decide },
   { device := utf8 "proc", mountPoint := utf8 "/proc", rest := utf8 "proc rw 0 0"
     device_named := by decide, absolute := by decide, rest_line := by decide },
   { device := utf8 "/dev/sda2", mountPoint := utf8 "/home", rest := utf8 "ext4 rw 0 0"
     device_named := by decide, absolute := by decide, rest_line := by decide }]

/-- The table is unmounted also where the read ends nine bytes early, in
the options of the last mount. -/
theorem rootAndHome_unmounted :
    unmountAll (some (procMounts rootAndHome)) ((procMounts rootAndHome).length - 9)
      = [utf8 "/home", utf8 "/proc"] := by
  refine (unmountAll_exact rootAndHome _).1.2 ?_
  rw [if_neg (by decide)]
  exact ⟨by decide, by decide⟩

/-- A mount point with a blank in its name. -/
def diskWithBlank : List Mount :=
  [{ device := utf8 "/dev/sdb1", mountPoint := utf8 "/mnt/my disk", rest := utf8 "ext4 rw 0 0"
     device_named := by decide, absolute := by decide, rest_line := by decide }]

/-- The name is handed on as it is written, which is the name of no
mount. -/
theorem escaped_name_unmounted : (procMounts diskWithBlank).length ≤ 4096
    ∧ unmountAll (some (procMounts diskWithBlank)) 4096 = [utf8 "/mnt/my\\040disk"]
    ∧ ((belowRoot diskWithBlank).map Mount.mountPoint).reverse = [utf8 "/mnt/my disk"]
    ∧ utf8 "/mnt/my\\040disk" ≠ utf8 "/mnt/my disk" := by
  exact ⟨by decide, by decide, by decide, by decide⟩

end Dynamod.Init.Shutdown
