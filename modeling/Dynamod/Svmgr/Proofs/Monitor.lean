/-
The kills that the cgroup monitor reports, against the kernel's counter.

A service's reports depend on its own reads alone: the monitor keeps the
last value it read and reports what the next one is above it
(`counts_run`). A failed read is taken for the value 0, and it is kept:
the next read that succeeds is reported in full, with every kill that had
been reported before (`sum_increments`).
-/
import Dynamod.Svmgr.Monitor
import Dynamod.Svmgr.Proofs.Quantities

namespace Dynamod.Svmgr

open Lib

-- ==== memory.events

/-- A line of `memory.events`. -/
def fieldLine (name : String) (value : Nat) : List Char :=
  name.toList ++ ' ' :: (toString value).toList

/-- The name of another field than `oom_kill`. -/
def OtherField (name : String) : Prop :=
  '\n' ∉ name.toList ∧ ' ' ∉ name.toList ∧ name ≠ "oom_kill"

/-- The content is what the kernel prints: fields, one a line, among them
the counter. -/
def Printed (counter : Nat) (content : String) : Prop :=
  ∃ (fields : List (String × Nat)) (rest : List Char), (∀ f ∈ fields, OtherField f.1)
    ∧ content.toList = (fields.flatMap fun f => fieldLine f.1 f.2 ++ ['\n'])
      ++ (fieldLine "oom_kill" counter ++ '\n' :: rest)

theorem isDigit_of_toString {n : Nat} {c : Char} (hc : c ∈ (toString n).toList) :
    c.isDigit = true := by
  rw [show (toString n).toList = Nat.toDigits 10 n from Nat.toList_repr] at hc
  exact Nat.isDigit_of_mem_toDigits (by decide) (by decide) hc

theorem notMem_toString {n : Nat} {c : Char} (hc : c.isDigit = false) :
    c ∉ (toString n).toList := by
  intro hmem
  rw [isDigit_of_toString hmem] at hc
  cases hc

/-- A line of a field is read as it was printed. -/
theorem lines_fieldLine {name : String} {value : Nat} {rest : List Char}
    (hname : '\n' ∉ name.toList) : lines '\n' '\r' (fieldLine name value ++ '\n' :: rest)
      = fieldLine name value :: lines '\n' '\r' rest := by
  have hline : '\n' ∉ fieldLine name value := by
    unfold fieldLine
    rw [List.mem_append, List.mem_cons]
    rintro (h | h | h)
    · exact hname h
    · cases h
    · exact notMem_toString (by decide) h
  have hlast : (fieldLine name value).getLast? ≠ some '\r' := by
    have hdigits : (toString value).toList ≠ [] := by
      rw [show (toString value).toList = Nat.toDigits 10 value from Nat.toList_repr]
      exact Nat.toDigits_ne_nil
    unfold fieldLine
    rw [List.getLast?_append_of_ne_nil _ (List.cons_ne_nil _ _),
      List.getLast?_cons_of_ne_nil hdigits]
    exact fun h => notMem_toString (by decide) (List.mem_of_getLast? h)
  rw [lines_terminated hline, chomp_of_last hlast]

/-- Only the line of the counter begins with its name. -/
theorem isPrefixOf?_otherField {name : String} {value : Nat} (h : OtherField name) :
    "oom_kill ".toList.isPrefixOf? (fieldLine name value) = none := by
  rw [Option.eq_none_iff_forall_ne_some]
  intro rest hrest
  rw [List.isPrefixOf?_eq_some_iff_append_eq] at hrest
  have hsplit : name.toList ++ ' ' :: (toString value).toList
      = "oom_kill".toList ++ ' ' :: rest := hrest.symm
  have hname := ((List.append_cons_inj_of_notMem h.2.1 (notMem_toString (by decide))).1 hsplit).1
  exact h.2.2 (String.toList_inj.1 hname)

theorem isPrefixOf?_counter (value : Nat) :
    "oom_kill ".toList.isPrefixOf? (fieldLine "oom_kill" value)
      = some (toString value).toList :=
  List.isPrefixOf?_eq_some_iff_append_eq.2 rfl

theorem trim_toString (n : Nat) : trim (toString n).toList = (toString n).toList := by
  have hwhite : ∀ c ∈ (toString n).toList, ¬ isWhitespace c = true := by
    intro c hc hspace
    have hdigit := isDigit_of_toString hc
    simp only [Char.isDigit, Bool.and_eq_true, decide_eq_true_eq, ge_iff_le,
      UInt32.le_iff_toNat_le] at hdigit
    change 48 ≤ c.val.toNat ∧ c.val.toNat ≤ 57 at hdigit
    simp only [isWhitespace, Char.toNat, Bool.or_eq_true, Bool.and_eq_true,
      decide_eq_true_eq, beq_iff_eq] at hspace
    omega
  have hdrop : ∀ cs : List Char, (∀ c ∈ cs, ¬ isWhitespace c = true) →
      cs.dropWhile isWhitespace = cs := by
    intro cs hcs
    cases cs with
    | nil => rfl
    | cons c cs => exact List.dropWhile_cons_of_neg (hcs c List.mem_cons_self)
  unfold trim
  rw [hdrop _ hwhite, hdrop _ fun c hc => hwhite c (List.mem_reverse.1 hc), List.reverse_reverse]

theorem readOomKillCount_printed {files : CgroupFiles} {content : String} {counter : Nat}
    (hfiles : files.memoryEvents = some content) (hprinted : Printed counter content)
    (hcounter : counter < 2 ^ 64) : files.readOomKillCount = counter := by
  obtain ⟨fields, rest, hfields, hcontent⟩ := hprinted
  have hfind : (lines '\n' '\r' content.toList).findSome? "oom_kill ".toList.isPrefixOf?
      = some (toString counter).toList := by
    rw [hcontent]
    clear hcontent
    induction fields with
    | nil =>
      rw [List.flatMap_nil, List.nil_append, lines_fieldLine (by decide),
        List.findSome?_cons, isPrefixOf?_counter]
    | cons f fields ih =>
      have hf := hfields f List.mem_cons_self
      rw [List.flatMap_cons, List.append_assoc, List.append_assoc, List.singleton_append,
        lines_fieldLine hf.1, List.findSome?_cons, isPrefixOf?_otherField hf]
      exact ih fun g hg => hfields g (List.mem_cons_of_mem _ hg)
  unfold CgroupFiles.readOomKillCount
  rw [hfiles]
  simp only [hfind]
  rw [trim_toString, parseU64_eq_some.2 ⟨number_toString counter, hcounter⟩]
  rfl

-- ==== the reads

/-- The counter when a file is read, and whether the read succeeds. -/
structure Reading where
  counter : Nat
  ok : Bool

/-- The value the monitor takes the reading for. -/
def Reading.value (r : Reading) : Nat := if r.ok then r.counter else 0

/-- The files are what such a reading finds. -/
def Reading.Of (r : Reading) (files : CgroupFiles) : Prop :=
  r.counter < 2 ^ 64
    ∧ if r.ok then ∃ content, files.memoryEvents = some content ∧ Printed r.counter content
      else files.memoryEvents = none

theorem Reading.Of.readOomKillCount {r : Reading} {files : CgroupFiles} (h : r.Of files) :
    files.readOomKillCount = r.value := by
  obtain ⟨hcounter, hread⟩ := h
  unfold Reading.value
  split at hread
  · next hok =>
    obtain ⟨content, hfiles, hprinted⟩ := hread
    rw [if_pos hok]
    exact readOomKillCount_printed hfiles hprinted hcounter
  · next hok =>
    rw [if_neg hok, CgroupFiles.readOomKillCount, hread]

-- ==== the runs

/-- A call of one of the monitor's methods, with the answers to its
reads. -/
inductive MonitorCall
  | watch (serviceName cgroupPath : String) (files : CgroupFiles)
  | unwatch (serviceName : String)
  | poll (reads : Reads) (iter : (s : Finset String) → IterOrder s)

namespace CgroupMonitor

variable {m : CgroupMonitor} {name path : String}

def call (m : CgroupMonitor) : MonitorCall → CgroupMonitor × List CgroupEvent
  | .watch serviceName cgroupPath files => (m.watch serviceName cgroupPath files, [])
  | .unwatch serviceName => (m.unwatch serviceName, [])
  | .poll reads iter => m.poll reads (iter m.watched.keys)

/-- All the events of a row of calls. -/
def run (m : CgroupMonitor) : List MonitorCall → List CgroupEvent
  | [] => []
  | c :: cs => (m.call c).2 ++ (m.call c).1.run cs

/-- The counts reported for a service. -/
def counts (name : String) (events : List CgroupEvent) : List Nat :=
  events.filterMap fun e => match e with
    | .oomKill serviceName count => if serviceName = name then some count else none
    | .memoryHigh _ _ => none

/-- The service stays watched, and its reads in the polls are these. -/
inductive Polled (name path : String) : List MonitorCall → List Reading → Prop
  | nil : Polled name path [] []
  | watch {other otherPath : String} {files : CgroupFiles} {cs : List MonitorCall}
      {rs : List Reading} : other ≠ name → Polled name path cs rs →
      Polled name path (.watch other otherPath files :: cs) rs
  | unwatch {other : String} {cs : List MonitorCall} {rs : List Reading} :
      other ≠ name → Polled name path cs rs → Polled name path (.unwatch other :: cs) rs
  | poll {reads : Reads} {iter : (s : Finset String) → IterOrder s}
      {cs : List MonitorCall} {r : Reading} {rs : List Reading} :
      r.Of (reads name path) → Polled name path cs rs →
      Polled name path (.poll reads iter :: cs) (r :: rs)

theorem counts_append (events events' : List CgroupEvent) :
    counts name (events ++ events') = counts name events ++ counts name events' :=
  List.filterMap_append

theorem counts_pressure (files : CgroupFiles) (other : String) :
    counts name (pressureEvents files other) = [] := by
  unfold pressureEvents
  split
  · split
    · rfl
    · rfl
  · rfl

/-- What is reported when the value goes from `last` to `current`. -/
def increment (last current : Nat) : List Nat :=
  if current > last then [current - last] else []

theorem counts_oomEvents_self (last current : Nat) :
    counts name (oomEvents last current name) = increment last current := by
  unfold oomEvents increment
  split
  · simp [counts]
  · rfl

theorem counts_oomEvents_other {other : String} (h : other ≠ name) (last current : Nat) :
    counts name (oomEvents last current other) = [] := by
  unfold oomEvents
  split
  · simp [counts, h]
  · rfl

/-- A round for another service does not touch this one. -/
theorem pollService_other (reads : Reads) (st : CgroupMonitor × List CgroupEvent)
    {other : String} (h : other ≠ name) : (pollService reads st other).1.watched = st.1.watched
      ∧ (pollService reads st other).1.lastOomCount.lookup name = st.1.lastOomCount.lookup name
      ∧ counts name (pollService reads st other).2 = counts name st.2 := by
  unfold pollService
  split
  · exact ⟨rfl, rfl, rfl⟩
  · refine ⟨rfl, ?_, ?_⟩
    · rw [HashMap.lookup_insert_ite, if_neg fun e => h e.symm]
    · rw [counts_append, counts_append, counts_oomEvents_other h, counts_pressure,
        List.append_nil, List.append_nil]

theorem foldl_pollService_other (reads : Reads) (names : List String) :
    ∀ st : CgroupMonitor × List CgroupEvent, name ∉ names →
      (names.foldl (pollService reads) st).1.watched = st.1.watched
        ∧ (names.foldl (pollService reads) st).1.lastOomCount.lookup name
          = st.1.lastOomCount.lookup name
        ∧ counts name (names.foldl (pollService reads) st).2 = counts name st.2 := by
  induction names with
  | nil => exact fun _ _ => ⟨rfl, rfl, rfl⟩
  | cons other names ih =>
    intro st hname
    rw [List.mem_cons, not_or] at hname
    obtain ⟨hwatched, hlast, hcounts⟩ := pollService_other reads st (Ne.symm hname.1)
    obtain ⟨hwatched', hlast', hcounts'⟩ := ih (pollService reads st other) hname.2
    exact ⟨hwatched'.trans hwatched, hlast'.trans hlast, hcounts'.trans hcounts⟩

theorem pollService_self (reads : Reads) {st : CgroupMonitor × List CgroupEvent} {last : Nat}
    (hwatched : st.1.watched.lookup name = some path)
    (hlast : st.1.lastOomCount.lookup name = some last) :
    (pollService reads st name).1.watched = st.1.watched
      ∧ (pollService reads st name).1.lastOomCount.lookup name
        = some (reads name path).readOomKillCount
      ∧ counts name (pollService reads st name).2
        = counts name st.2 ++ increment last (reads name path).readOomKillCount := by
  unfold pollService
  rw [hwatched]
  refine ⟨rfl, ?_, ?_⟩
  · rw [HashMap.lookup_insert_ite, if_pos rfl]
  · simp only [hlast, Option.getD_some]
    rw [counts_append, counts_append, counts_oomEvents_self, counts_pressure, List.append_nil]

/-- A poll reads each watched service once, in whatever order. -/
theorem poll_spec {last : Nat} (reads : Reads) (order : IterOrder m.watched.keys)
    (hwatched : m.watched.lookup name = some path)
    (hlast : m.lastOomCount.lookup name = some last) :
    (m.poll reads order).1.watched.lookup name = some path
      ∧ (m.poll reads order).1.lastOomCount.lookup name
        = some (reads name path).readOomKillCount
      ∧ counts name (m.poll reads order).2
        = increment last (reads name path).readOomKillCount := by
  have hmem : name ∈ order.list := by
    rw [order.mem, Finmap.mem_keys, ← Finmap.lookup_isSome, hwatched]
    rfl
  obtain ⟨before, after, hlist, hbefore⟩ := List.eq_append_cons_of_mem hmem
  have hafter : name ∉ after := by
    have hnodup := order.nodup
    rw [hlist, List.nodup_middle, List.nodup_cons, List.mem_append, not_or] at hnodup
    exact hnodup.1.2
  unfold poll
  rw [hlist, List.foldl_append, List.foldl_cons]
  obtain ⟨hwatched₁, hlast₁, hcounts₁⟩ := foldl_pollService_other reads before (m, []) hbefore
  generalize before.foldl (pollService reads) (m, []) = st at hwatched₁ hlast₁ hcounts₁ ⊢
  obtain ⟨hwatched₂, hlast₂, hcounts₂⟩ := pollService_self reads
    ((congrArg (Finmap.lookup name) hwatched₁).trans hwatched) (hlast₁.trans hlast)
  obtain ⟨hwatched₃, hlast₃, hcounts₃⟩ :=
    foldl_pollService_other reads after (pollService reads st name) hafter
  refine ⟨?_, hlast₃.trans hlast₂, ?_⟩
  · rw [hwatched₃, hwatched₂, hwatched₁, hwatched]
  · rw [hcounts₃, hcounts₂, hcounts₁]
    rfl

/-- The increments of a row of values. -/
def increments (last : Nat) : List Nat → List Nat
  | [] => []
  | c :: cs => increment last c ++ increments c cs

/-- The reports for a service are the increments of its own reads. -/
theorem counts_run {cs : List MonitorCall} {rs : List Reading} (h : Polled name path cs rs) :
    ∀ {m : CgroupMonitor} {last : Nat}, m.watched.lookup name = some path →
      m.lastOomCount.lookup name = some last →
      counts name (m.run cs) = increments last (rs.map Reading.value) := by
  induction h with
  | nil => exact fun _ _ => rfl
  | watch hother _ ih =>
    intro m last hwatched hlast
    refine ih ?_ ?_
    · exact (HashMap.lookup_insert_ite ..).trans ((if_neg (Ne.symm hother)).trans hwatched)
    · exact (HashMap.lookup_insert_ite ..).trans ((if_neg (Ne.symm hother)).trans hlast)
  | unwatch hother _ ih =>
    intro m last hwatched hlast
    refine ih ?_ ?_
    · exact (HashMap.lookup_erase_ite ..).trans ((if_neg (Ne.symm hother)).trans hwatched)
    · exact (HashMap.lookup_erase_ite ..).trans ((if_neg (Ne.symm hother)).trans hlast)
  | poll hread _ ih =>
    intro m last hwatched hlast
    obtain ⟨hwatched', hlast', hcounts⟩ := poll_spec _ _ hwatched hlast
    rw [hread.readOomKillCount] at hlast' hcounts
    rw [run, counts_append, List.map_cons, increments]
    exact congrArg₂ (· ++ ·) hcounts (ih hwatched' hlast')

-- ==== the sums

/-- The counter at the last read that succeeded, from `base` on. -/
def lastRead (base : Nat) : List Reading → Nat
  | [] => base
  | r :: rs => lastRead (if r.ok then r.counter else base) rs

/-- Once a kill has been counted, no read succeeds right behind one that
failed. `ok` and `base` are the read before and the counter at the last
one that succeeded. -/
def Seamless (ok : Bool) (base : Nat) : List Reading → Prop
  | [] => True
  | r :: rs =>
    if r.ok then (ok = true ∨ base = 0) ∧ Seamless true r.counter rs
    else Seamless false base rs

/-- What is reported again. -/
def recounted (ok : Bool) (base : Nat) : List Reading → Nat
  | [] => 0
  | r :: rs =>
    if r.ok then (if ok then 0 else base) + recounted true r.counter rs
    else recounted false base rs

theorem recounted_eq_zero_iff (rs : List Reading) :
    ∀ ok base, recounted ok base rs = 0 ↔ Seamless ok base rs := by
  induction rs with
  | nil => exact fun _ _ => iff_of_true rfl True.intro
  | cons r rs ih =>
    intro ok base
    unfold recounted Seamless
    split
    · rw [Nat.add_eq_zero_iff, ih]
      refine and_congr_left fun _ => ?_
      cases ok with
      | true => simp
      | false => simp
    · exact ih false base

theorem sum_increment (last current : Nat) : (increment last current).sum = current - last := by
  unfold increment
  split
  · simp
  · next h =>
    rw [List.sum_nil]
    omega

/-- The reports add up to the kills since the start, and what is reported
again. -/
theorem sum_increments (rs : List Reading) :
    ∀ ok base, (base :: rs.map (·.counter)).Pairwise (· ≤ ·) → base ≤ lastRead base rs
        ∧ (increments (if ok then base else 0) (rs.map Reading.value)).sum + base
          = lastRead base rs + recounted ok base rs := by
  induction rs with
  | nil =>
    intro ok base _
    exact ⟨Nat.le_refl _, Nat.zero_add base⟩
  | cons r rs ih =>
    intro ok base hmono
    obtain ⟨hbase, htail⟩ := List.pairwise_cons.1 hmono
    have hle : base ≤ r.counter := hbase r.counter List.mem_cons_self
    simp only [List.map_cons, increments, List.sum_append, sum_increment, lastRead,
      recounted, Reading.value]
    by_cases hok : r.ok = true
    · obtain ⟨hgrows, hsum⟩ := ih true r.counter htail
      simp only [if_true] at hsum
      simp only [if_pos hok]
      cases ok with
      | true =>
        simp only [if_true]
        omega
      | false =>
        simp only [Bool.false_eq_true, if_false]
        omega
    · have hskip : (base :: rs.map (·.counter)).Pairwise (· ≤ ·) :=
        List.pairwise_cons.2 ⟨fun c hc => hbase c (List.mem_cons_of_mem _ hc),
          (List.pairwise_cons.1 htail).2⟩
      obtain ⟨hgrows, hsum⟩ := ih false base hskip
      simp only [Bool.false_eq_true, if_false] at hsum
      simp only [if_neg hok]
      omega

/-- The counts reported for a watched service add up to the kills between
the start and the last read that succeeded, if and only if no read
succeeds right behind a failed one once a kill has been counted. -/
theorem oom_counts_exact_iff (m : CgroupMonitor) {files : CgroupFiles} {start : Reading}
    {cs : List MonitorCall} {rs : List Reading} (hstart : start.Of files)
    (hpolled : Polled name path cs rs)
    (hmono : ((start :: rs).map (·.counter)).Pairwise (· ≤ ·)) :
    (counts name ((m.watch name path files).run cs)).sum
        = lastRead start.counter rs - start.counter
      ↔ Seamless start.ok start.counter rs := by
  have hcounts : counts name ((m.watch name path files).run cs)
      = increments start.value (rs.map Reading.value) := by
    refine counts_run hpolled ?_ ?_
    · exact (HashMap.lookup_insert_ite ..).trans (if_pos rfl)
    · refine (HashMap.lookup_insert_ite ..).trans ((if_pos rfl).trans ?_)
      rw [hstart.readOomKillCount]
  obtain ⟨hgrows, hsum⟩ := sum_increments rs start.ok start.counter hmono
  rw [hcounts, ← recounted_eq_zero_iff]
  change (increments start.value _).sum + _ = _ at hsum
  omega

/-- The files of a cgroup with so many kills. -/
def filesWith (kills : Nat) : CgroupFiles where
  memoryEvents := some (String.ofList
    (fieldLine "oom" kills ++ '\n' :: (fieldLine "oom_kill" kills ++ ['\n'])))
  memoryCurrent := none
  memoryHigh := none

/-- A cgroup whose files cannot be read. -/
def unreadable : CgroupFiles := ⟨none, none, none⟩

theorem filesWith_of {kills : Nat} (h : kills < 2 ^ 64) :
    Reading.Of ⟨kills, true⟩ (filesWith kills) := by
  refine ⟨h, _, rfl, [("oom", kills)], [], ?_, ?_⟩
  · intro f hf
    rw [List.mem_singleton] at hf
    subst hf
    show OtherField "oom"
    exact ⟨by decide, by decide, by decide⟩
  · rw [String.toList_ofList]
    simp

/-- A poll that finds the same files for every service. -/
def pollOf (files : CgroupFiles) : MonitorCall := .poll (fun _ _ => files) IterOrder.sorted

/-- Three more kills in two polls, with two of them before the watch. -/
theorem kills_counted_once : (counts "web" ((new.watch "web" "/web" (filesWith 2)).run
    [pollOf (filesWith 3), pollOf (filesWith 5)])).sum = 3 := by
  have hpolled : Polled "web" "/web" [pollOf (filesWith 3), pollOf (filesWith 5)]
      [⟨3, true⟩, ⟨5, true⟩] :=
    .poll (filesWith_of (by decide)) (.poll (filesWith_of (by decide)) .nil)
  exact (oom_counts_exact_iff new (filesWith_of (by decide)) hpolled (by decide)).2
    ⟨Or.inl rfl, Or.inl rfl, True.intro⟩

/-- Two kills before the watch and none after it: a poll whose read fails
makes the next one report both of them. -/
theorem kills_counted_again : Reading.Of ⟨2, true⟩ (filesWith 2)
    ∧ Polled "web" "/web" [pollOf unreadable, pollOf (filesWith 2)] [⟨2, false⟩, ⟨2, true⟩]
    ∧ ([2, 2, 2] : List Nat).Pairwise (· ≤ ·)
    ∧ (counts "web" ((new.watch "web" "/web" (filesWith 2)).run
      [pollOf unreadable, pollOf (filesWith 2)])).sum = 2
    ∧ lastRead 2 [⟨2, false⟩, ⟨2, true⟩] - 2 = 0 := by
  have hpolled : Polled "web" "/web" [pollOf unreadable, pollOf (filesWith 2)]
      [⟨2, false⟩, ⟨2, true⟩] :=
    .poll ⟨by decide, rfl⟩ (.poll (filesWith_of (by decide)) .nil)
  have hlast : (new.watch "web" "/web" (filesWith 2)).lastOomCount.lookup "web" = some 2 := by
    refine (HashMap.lookup_insert_ite ..).trans ((if_pos rfl).trans ?_)
    rw [(filesWith_of (by decide)).readOomKillCount]
    rfl
  refine ⟨filesWith_of (by decide), hpolled, by decide, ?_, by decide⟩
  rw [counts_run hpolled ((HashMap.lookup_insert_ite ..).trans (if_pos rfl)) hlast]
  rfl

end CgroupMonitor

end Dynamod.Svmgr
