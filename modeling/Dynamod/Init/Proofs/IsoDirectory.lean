/-
The lookup in a directory, as a function of its records
(`findInDirectory`).

A directory is laid out in sectors: records one behind the other and zeros
behind them, up to the end of the sector or of the directory. `LaidOut` says
so, and `directoryLookup` what a lookup answers, by the list of the records
alone. Between the two stands `visitAll`, the records in a row: the loop over
a sector is the one over its records (`scanSector_laid`), and sectors follow
each other as their records do (`visitAll_append`), so nothing is left of the
places.
-/
import Dynamod.Init.Proofs.IsoLocate

namespace Dynamod.Init.Iso9660

open Lib Loops

variable {run recs : List DirRecord} {r : DirRecord} {chunk bytes : List UInt8}
  {off : Nat} {q : Query} {left : Left}

-- ==== the layout

structure Record where
  bytes : List UInt8
  isRecord : IsRecord bytes

def Record.says (r : Record) : DirRecord := recordOf r.bytes

def rowBytes (recs : List Record) : List UInt8 := recs.flatMap Record.bytes

/-- The records, and zeros up to `n` bytes. -/
def padded (recs : List Record) (n : Nat) : List UInt8 :=
  rowBytes recs ++ List.replicate (n - (rowBytes recs).length) 0

/-- The bytes of a directory, and its records. The last sector may be a part
of one. -/
inductive LaidOut : List UInt8 → List Record → Prop
  | last {recs : List Record} {n : Nat} :
      (rowBytes recs).length ≤ n → n ≤ logicalSector → LaidOut (padded recs n) recs
  | more {recs recs' : List Record} {bytes : List UInt8} :
      (rowBytes recs).length ≤ logicalSector → LaidOut bytes recs' →
      LaidOut (padded recs logicalSector ++ bytes) (recs ++ recs')

/-- The bytes can be read from the source, in whatever pieces. -/
def Source.Holds (src : Source) (start : Nat) (bytes : List UInt8) : Prop :=
  match src with
  | .mem image => Placed image start bytes
  | .fd device => ∀ call len i, 0 < len → i + len ≤ bytes.length →
      ∃ b bs, device.pread call len (start + i) = some (b :: bs) ∧ b :: bs <+: bytes.drop i

-- ==== the lookup

namespace DirRecord

def IsDir (r : DirRecord) : Prop := r.flags &&& flagDir ≠ 0

/-- The file goes on in the next record. -/
def Continues (r : DirRecord) : Prop := r.flags &&& flagMultiExtent ≠ 0

instance (r : DirRecord) : Decidable r.IsDir := inferInstanceAs (Decidable (_ ≠ _))

instance (r : DirRecord) : Decidable r.Continues := inferInstanceAs (Decidable (_ ≠ _))

end DirRecord

/-- The records up to the first one that the file does not go on behind. -/
def fileRun : List DirRecord → Option (List DirRecord)
  | [] => none
  | r :: rest => if r.Continues then (fileRun rest).map (r :: ·) else some [r]

def fileOf (blockSize : UInt32) (run : List DirRecord) : FileExtents :=
  { extents := run.map (DirRecord.extent blockSize)
    totalSize := (run.map fun r => r.dataLen.toNat).sum }

/-- The record is one that the query looks for. -/
def Query.names (q : Query) (r : DirRecord) : Bool := named q.component.bytes q.ns q.rrSkip r

/-- The file that begins with the first of the records. -/
def fileAt (q : Query) (recs : List DirRecord) : Option Found :=
  match fileRun recs with
  | none => none
  | some run =>
    if (∀ r ∈ run, q.names r) ∧ run.length ≤ maxExtents then
      some (.file (fileOf q.blockSize run))
    else none

/-- What a lookup answers for the records of a directory. -/
def directoryLookup (q : Query) (recs : List DirRecord) : Option Found :=
  match recs.dropWhile fun r => !q.names r with
  | [] => none
  | first :: rest =>
    if first.IsDir then
      if first.Continues then none
      else some (.dir { lba := first.extentLba, size := first.dataLen })
    else fileAt q (first :: rest)

-- ==== records in a row

/-- The records of a directory, one after the other. -/
def visitAll (q : Query) : Option FileExtents → List Record → Prog Left
  | collecting, [] => .ok (.next collecting)
  | collecting, r :: rest => do
      match ← visitRecord q collecting r.says with
      | .answer found => .ok (.answer found)
      | .next collecting => visitAll q collecting rest

/-- The answer of a directory that is left so. -/
def Left.verdict : Left → Option Found
  | .answer found => found
  | .next _ => none

section Row

variable (q : Query)

theorem visitRecord_eq (collecting : Option FileExtents) (r : Record) :
    visitRecord q collecting r.says
      = liftM (takeRecord q.blockSize (q.names r.says) collecting r.says) := by
  have hname := r.isRecord.length_name_lt
  have hsu := r.isRecord.length_su_lt
  have hmatches := recordMatches_eq (r := r.says) q.ns q.rrSkip
    (by unfold Record.says; omega) (by unfold Record.says; omega) q.component.fits
  unfold visitRecord
  rw [hmatches]
  rfl

section Taken

variable {blockSize : UInt32}

/-- A directory is the answer, unless it claims to continue. -/
theorem takeRecord_dir (h : r.IsDir) : takeRecord blockSize true none r
    = .ok (.answer (if r.Continues then none
        else some (.dir { lba := r.extentLba, size := r.dataLen }))) := by
  unfold takeRecord
  simp only [not_true_eq_false, if_false]
  refine (if_pos h).trans ?_
  by_cases hmore : r.Continues
  · rw [if_pos hmore]
    exact if_pos hmore
  · rw [if_neg hmore]
    exact if_neg hmore

/-- A file begins as it goes on, with no record before. -/
theorem takeRecord_file (h : ¬ r.IsDir) :
    takeRecord blockSize true none r = takeRecord blockSize true (some {}) r := by
  unfold takeRecord
  simp only [not_true_eq_false, if_false]
  exact if_neg h

end Taken

/-- Records in two parts are visited one part after the other. -/
theorem visitAll_append (collecting : Option FileExtents) (recs recs' : List Record) :
    visitAll q collecting (recs ++ recs') = (do
      match ← visitAll q collecting recs with
      | .answer found => .ok (.answer found)
      | .next collecting => visitAll q collecting recs') := by
  induction recs generalizing collecting with
  | nil => rfl
  | cons r recs ih =>
    rw [List.cons_append, visitAll, visitAll]
    cases visitRecord q collecting r.says with
    | error fault => rfl
    | ok left =>
      cases left with
      | answer found => rfl
      | next collecting => exact ih collecting

theorem fileOf_snoc (blockSize : UInt32) (run : List DirRecord) (r : DirRecord) :
    fileOf blockSize (run ++ [r]) = (fileOf blockSize run).add (r.extent blockSize) := by
  simp [fileOf, FileExtents.add, DirRecord.extent]

/-- As many extents as a file may have are sane. -/
theorem fileOf_sane (blockSize : UInt32) (h : run.length ≤ maxExtents) :
    (fileOf blockSize run).Sane blockSize := by
  refine ⟨?_, ?_, ?_, ?_⟩
  · show (run.map _).length ≤ maxExtents
    rwa [List.length_map]
  · intro ext hext
    obtain ⟨r, -, rfl⟩ := List.mem_map.1 hext
    exact Nat.dvd_mul_left _ _
  · intro ext hext
    obtain ⟨r, -, rfl⟩ := List.mem_map.1 hext
    exact r.dataLen.toNat_lt
  · show (run.map _).sum = ((run.map _).map Extent.size).sum
    rw [List.map_map]
    rfl

/-- A record more of a file, and whether it is the last. -/
theorem collect_fileOf (blockSize : UInt32) (h : run.length ≤ maxExtents)
    (r : DirRecord) : collect blockSize (fileOf blockSize run) r
      = .ok (if maxExtents ≤ run.length then .answer none
          else if r.Continues then .next (some (fileOf blockSize (run ++ [r])))
          else .answer (some (.file (fileOf blockSize (run ++ [r]))))) := by
  have hcount : (fileOf blockSize run).count = run.length := List.length_map _
  unfold collect
  rw [appendExtent_eq (fileOf_sane blockSize h), hcount, fileOf_snoc]
  simp only [bind, Except.bind]
  by_cases hroom : maxExtents ≤ run.length
  · rw [if_pos hroom, if_pos hroom]
  · rw [if_neg hroom, if_neg hroom]
    by_cases hmore : r.Continues
    · rw [if_pos hmore]
      exact if_neg hmore
    · rw [if_neg hmore]
      exact if_pos (not_not.1 hmore)

/-- The file that the records of `run` begin and the next ones go on with. -/
def fileWith (run recs : List DirRecord) : Option Found :=
  match fileRun recs with
  | none => none
  | some more =>
    if (∀ r ∈ more, q.names r) ∧ (run ++ more).length ≤ maxExtents then
      some (.file (fileOf q.blockSize (run ++ more)))
    else none

theorem fileRun_cons_ne_nil {more : List DirRecord}
    (h : fileRun (r :: recs) = some more) : ∃ rest, more = r :: rest := by
  rw [fileRun] at h
  split at h
  · obtain ⟨rest, -, rfl⟩ := Option.map_eq_some_iff.1 h
    exact ⟨rest, rfl⟩
  · cases h
    exact ⟨[], rfl⟩

/-- A run is broken by a record with another name, and full after eight. -/
theorem fileWith_none (h : q.names r = false ∨ maxExtents ≤ run.length) : fileWith q run
    (r :: recs) = none := by
  unfold fileWith
  cases hmore : fileRun (r :: recs) with
  | none => rfl
  | some more =>
    obtain ⟨rest, rfl⟩ := fileRun_cons_ne_nil hmore
    refine if_neg fun hfile => ?_
    rcases h with hname | hfull
    · have hnamed := hfile.1 r List.mem_cons_self
      rw [hname] at hnamed
      cases hnamed
    · have hlen := hfile.2
      rw [List.length_append, List.length_cons] at hlen
      omega

/-- A record that continues leaves the file open. -/
theorem fileWith_continues (hname : q.names r = true)
    (h : r.Continues) : fileWith q run (r :: recs) = fileWith q (run ++ [r]) recs := by
  unfold fileWith
  rw [fileRun, if_pos h]
  cases fileRun recs with
  | none => rfl
  | some more => simp [hname]

/-- The last record closes it. -/
theorem fileWith_last (hname : q.names r = true)
    (h : ¬ r.Continues) (hroom : run.length < maxExtents) :
    fileWith q run (r :: recs) = some (.file (fileOf q.blockSize (run ++ [r]))) := by
  unfold fileWith
  rw [fileRun, if_neg h]
  refine if_pos ⟨?_, ?_⟩
  · intro r' hr'
    rw [List.mem_singleton.1 hr']
    exact hname
  · rw [List.length_append]
    exact hroom

/-- An open file goes on to its last record. -/
theorem visitAll_collecting (recs : List Record) :
    ∀ {run : List DirRecord}, run.length ≤ maxExtents →
      ∃ left, visitAll q (some (fileOf q.blockSize run)) recs = .ok left
        ∧ left.verdict = fileWith q run (recs.map Record.says) := by
  induction recs with
  | nil => exact fun hrun => ⟨_, rfl, rfl⟩
  | cons r recs ih =>
    intro run hrun
    rw [visitAll, visitRecord_eq, List.map_cons]
    cases hname : q.names r.says with
    | false =>
      rw [fileWith_none q (Or.inl hname)]
      exact ⟨_, rfl, rfl⟩
    | true =>
      have htake : takeRecord q.blockSize true (some (fileOf q.blockSize run)) r.says
          = collect q.blockSize (fileOf q.blockSize run) r.says := rfl
      rw [htake, collect_fileOf q.blockSize hrun]
      by_cases hfull : maxExtents ≤ run.length
      · rw [if_pos hfull, fileWith_none q (Or.inr hfull)]
        exact ⟨_, rfl, rfl⟩
      rw [if_neg hfull]
      have hroom := Nat.lt_of_not_le hfull
      by_cases hmore : r.says.Continues
      · rw [if_pos hmore, fileWith_continues q hname hmore]
        apply ih
        rw [List.length_append]
        exact hroom
      · rw [if_neg hmore, fileWith_last q hname hmore hroom]
        exact ⟨_, rfl, rfl⟩

/-- The records in a row give the answer of the lookup. -/
theorem visitAll_lookup (recs : List Record) : ∃ left, visitAll q none recs = .ok left
    ∧ left.verdict = directoryLookup q (recs.map Record.says) := by
  induction recs with
  | nil => exact ⟨_, rfl, rfl⟩
  | cons r recs ih =>
    unfold directoryLookup
    rw [List.map_cons]
    cases hname : q.names r.says with
    | false =>
      rw [List.dropWhile_cons_of_pos (by rw [hname]; rfl), visitAll, visitRecord_eq, hname]
      exact ih
    | true =>
      rw [List.dropWhile_cons_of_neg (by rw [hname]; decide)]
      dsimp only
      by_cases hdir : r.says.IsDir
      · rw [if_pos hdir, visitAll, visitRecord_eq, hname, takeRecord_dir hdir]
        exact ⟨_, rfl, rfl⟩
      · have hnone : ([] : List DirRecord).length ≤ maxExtents := Nat.zero_le _
        have hfile := visitAll_collecting q (r :: recs) hnone
        rw [visitAll, visitRecord_eq, hname] at hfile
        rw [if_neg hdir, visitAll, visitRecord_eq, hname, takeRecord_file hdir]
        exact hfile

end Row

-- ==== sectors

theorem rowBytes_cons (r : Record) (recs : List Record) :
    rowBytes (r :: recs) = r.bytes ++ rowBytes recs := rfl

/-- A padded sector has the length of a sector. -/
theorem length_padded {recs : List Record} {n : Nat} (h : (rowBytes recs).length ≤ n) :
    (padded recs n).length = n := by
  unfold padded
  rw [List.length_append, List.length_replicate]
  omega

section Sectors

variable (q : Query)

/-- A round at a record goes on as the row does. -/
theorem recordRound_record {r : Record}
    (hplaced : Placed chunk off r.bytes) (hchunk : chunk.length < 2 ^ 63)
    (collecting : Option FileExtents) : recordRound q chunk (off, collecting) = (do
      match ← visitRecord q collecting r.says with
      | .answer found => return .done (.answer found)
      | .next collecting => return .again (off + r.bytes.length, collecting)) := by
  have hne := r.isRecord.ne_nil
  have hfits := hplaced.fits hne
  have hlong := r.isRecord.long
  have hadd : addWord off r.says.recLen.toNat = .ok (off + r.bytes.length) := by
    rw [show r.says.recLen.toNat = r.bytes.length from r.isRecord.recLen_eq]
    exact addWord_eq (by omega)
  unfold recordRound
  dsimp only
  rw [if_pos (by omega), parseDirRecord_record hplaced r.isRecord hchunk, lift_ok]
  show (visitRecord q collecting r.says >>= _) = _
  cases visitRecord q collecting r.says with
  | error fault => rfl
  | ok left =>
    cases left with
    | answer found => rfl
    | next collecting =>
      show ((liftM (addWord off r.says.recLen.toNat) : Prog Nat) >>= _) = _
      rw [hadd]
      rfl

/-- A round behind the records is the last one. -/
theorem recordRound_zeros {n : Nat}
    (h : chunk.drop off = List.replicate n 0) (collecting : Option FileExtents) :
    recordRound q chunk (off, collecting) = .ok (.done (.next collecting)) := by
  unfold recordRound
  dsimp only
  split
  · next hoff =>
    have hlen := congrArg List.length h
    rw [List.length_drop, List.length_replicate] at hlen
    have hzero : chunk[off]? = some 0 := by
      rw [← Nat.add_zero off, ← List.getElem?_drop, h, List.getElem?_replicate,
        if_pos (by omega)]
    rw [parseDirRecord_padding hzero]
    rfl
  · rfl

/-- The loop over a sector is the one over its records. -/
theorem scanSector_laid (hchunk : chunk.length < 2 ^ 63) (n : Nat)
    (recs : List Record) : ∀ (off rounds : Nat) (collecting : Option FileExtents),
      chunk.drop off = rowBytes recs ++ List.replicate n 0 → chunk.length - off < rounds →
      loop (recordRound q chunk) rounds (off, collecting) = visitAll q collecting recs := by
  induction recs with
  | nil =>
    intro off rounds collecting hdrop hrounds
    obtain ⟨rounds, rfl⟩ : ∃ k, rounds = k + 1 := ⟨rounds - 1, by omega⟩
    rw [loop, recordRound_zeros q hdrop]
    rfl
  | cons r recs ih =>
    intro off rounds collecting hdrop hrounds
    obtain ⟨rounds, rfl⟩ : ∃ k, rounds = k + 1 := ⟨rounds - 1, by omega⟩
    rw [rowBytes_cons, List.append_assoc] at hdrop
    have hplaced : Placed chunk off r.bytes := ⟨_, hdrop.symm⟩
    have hlong := r.isRecord.long
    have hfits := hplaced.fits r.isRecord.ne_nil
    rw [loop, recordRound_record q hplaced hchunk, visitAll]
    cases visitRecord q collecting r.says with
    | error fault => rfl
    | ok left =>
      cases left with
      | answer found => rfl
      | next collecting =>
        apply ih
        · rw [← List.drop_drop, hdrop, List.drop_left]
        · omega

end Sectors

/-- A directory is a sector, or the part of one that there is, and a directory
behind it. -/
theorem LaidOut.split {recs : List Record} (h : LaidOut bytes recs) :
    ∃ recs₁ recs₂, recs = recs₁ ++ recs₂
      ∧ (rowBytes recs₁).length ≤ min logicalSector bytes.length
      ∧ bytes.take logicalSector = padded recs₁ (min logicalSector bytes.length)
      ∧ LaidOut (bytes.drop logicalSector) recs₂ := by
  cases h with
  | last hfit hn =>
    rw [length_padded hfit, Nat.min_eq_right hn]
    refine ⟨recs, [], (List.append_nil recs).symm, hfit, ?_, ?_⟩
    · exact List.take_of_length_le (by rw [length_padded hfit]; exact hn)
    · rw [List.drop_of_length_le (by rw [length_padded hfit]; exact hn)]
      show LaidOut (padded [] 0) []
      exact .last (Nat.zero_le _) (Nat.zero_le _)
  | @more recs₁ recs₂ rest hfit hrest =>
    have hlen := length_padded hfit
    rw [List.length_append, hlen, Nat.min_eq_left (Nat.le_add_right _ _)]
    refine ⟨recs₁, recs₂, rfl, hfit, List.take_left' hlen, ?_⟩
    rw [List.drop_left' hlen]
    exact hrest

theorem rowBytes_eq_nil {recs : List Record} (h : (rowBytes recs).length = 0) : recs = [] := by
  cases recs with
  | nil => rfl
  | cons r recs =>
    have hlong := r.isRecord.long
    rw [rowBytes_cons, List.length_append] at h
    omega

theorem LaidOut.of_nil {recs : List Record} (h : LaidOut bytes recs)
    (hnil : bytes = []) : recs = [] := by
  cases h with
  | last hfit hn =>
    have hlen := length_padded hfit
    rw [hnil, List.length_nil] at hlen
    exact rowBytes_eq_nil (by omega)
  | more hfit hrest =>
    have hlen := congrArg List.length hnil
    rw [List.length_append, length_padded hfit] at hlen
    exact absurd (Nat.eq_zero_of_add_eq_zero_right hlen) (by decide)

-- ==== reading

/-- What the source holds is read, in as many calls as it takes. -/
theorem readFull_holds {src : Source} {start len : Nat} (calls : Nat)
    (h : src.Holds start bytes) (hlen : 0 < len) (hin : off + len ≤ bytes.length)
    (hword : start + bytes.length < 2 ^ 64) : Ends (readFull src (start + off) len calls)
      fun r => r.1 = some ((bytes.drop off).take len) := by
  cases src with
  | mem image =>
    have hplaced : Placed image start bytes := h
    have hfits := hplaced.fits (List.ne_nil_of_length_pos (by omega))
    refine Ends.lift (readMem_eq image (by omega)) (Ends.ok ?_)
    rw [if_pos (by omega), hplaced.drop_take hin]
  | fd device =>
    refine loop_ends (P := fun s => s.1.length ≤ len ∧ s.1 = (bytes.drop off).take s.1.length)
      (fun s => len - s.1.length) ?_ ⟨Nat.zero_le _, rfl⟩ (Nat.lt_succ_self _)
    rintro ⟨got, calls⟩ ⟨hgot, hfront⟩
    dsimp only at hgot hfront
    unfold readRound
    dsimp only
    split
    · next hlt =>
      obtain ⟨b, bs, hread, hbytes⟩ := h calls (len - got.length) (off + got.length) (by omega)
        (by omega)
      rw [← Nat.add_assoc] at hread
      have hshort := device.short _ _ _ _ hread
      have hnext : b :: bs = (bytes.drop (off + got.length)).take (b :: bs).length :=
        List.prefix_iff_eq_take.1 hbytes
      refine Ends.lift (addWord_eq (by omega)) ?_
      rw [hread]
      refine Ends.lift (addWord_eq (by omega)) (Ends.ok ⟨⟨?_, ?_⟩, ?_⟩)
      · dsimp only
        rw [List.length_append]
        omega
      · dsimp only
        rw [List.length_append, List.take_add, ← hfront, List.drop_drop, ← hnext]
      · dsimp only
        rw [List.length_append, List.length_cons]
        omega
    · next hfull =>
      have hall : got.length = len := by omega
      rw [hall] at hfront
      exact Ends.ok (congrArg some hfront)

/-- What is left of a directory, and of its records, comes to `left`. -/
def ComesTo (q : Query) (bytes : List UInt8) (collecting : Option FileExtents) (left : Left) :
    Prop :=
  ∃ rest, LaidOut bytes rest ∧ visitAll q collecting rest = .ok left

/-- The first sector decides, or leaves it to the rest. -/
theorem ComesTo.scanSector {collecting : Option FileExtents}
    (h : ComesTo q bytes collecting left) :
    ∃ left₁, scanSector q (bytes.take (min logicalSector bytes.length)) collecting = .ok left₁
      ∧ match left₁ with
        | .answer found => found = left.verdict
        | .next collecting => ComesTo q (bytes.drop logicalSector) collecting left := by
  obtain ⟨rest, hrest, hleft⟩ := h
  obtain ⟨recs₁, recs₂, rfl, hfit, htake, hbehind⟩ := hrest.split
  rw [visitAll_append] at hleft
  obtain ⟨left₁, hleft₁, hleft⟩ := Checked.bind_ok hleft
  have hsec : logicalSector = 2048 := rfl
  have hlen : (padded recs₁ (min logicalSector bytes.length)).length < 2 ^ 63 := by
    rw [length_padded hfit]
    omega
  refine ⟨left₁, ?_, ?_⟩
  · rw [← List.take_take, List.take_length, htake]
    exact (scanSector_laid q hlen _ recs₁ 0 _ collecting (List.drop_zero ..)
      (Nat.lt_succ_self _)).trans hleft₁
  · cases left₁ with
    | answer found =>
      injection hleft with hleft
      rw [← hleft]
      rfl
    | next collecting => exact ⟨recs₂, hbehind, hleft⟩

theorem ComesTo.of_nil {collecting : Option FileExtents}
    (h : ComesTo q bytes collecting left) (hnil : bytes = []) : left.verdict = none := by
  obtain ⟨rest, hrest, hleft⟩ := h
  rw [hrest.of_nil hnil] at hleft
  injection hleft with hleft
  rw [← hleft]
  rfl

/-- A round over a sector leaves the same answer to come. -/
theorem sectorRound_comesTo {src : Source} {dir : DirLoc} {base : Nat} {s : DirScan}
    (hread : src.Holds base bytes)
    (hsize : bytes.length = dir.size.toNat) (hword : base + bytes.length + 2048 < 2 ^ 64)
    (hs : ComesTo q (bytes.drop s.secStart) s.collecting left) :
    Ends (sectorRound src q dir base s)
      (Round.Within (fun s' => ComesTo q (bytes.drop s'.secStart) s'.collecting left
          ∧ dir.size.toNat - s'.secStart < dir.size.toNat - s.secStart)
        fun r => r.1 = left.verdict) := by
  have hsec : logicalSector = 2048 := rfl
  unfold sectorRound
  split
  · next hlt =>
    refine Ends.lift (subWord_eq (by omega)) ?_
    refine Ends.lift (castWidth_eq (by omega)) ?_
    refine Ends.lift (addWord_eq (by omega)) ?_
    refine Ends.bind (readFull_holds s.calls hread (by omega) (by omega) (by omega)) ?_
    rintro ⟨got, calls⟩ hgot
    rw [← hsize, ← List.length_drop] at hgot
    subst hgot
    obtain ⟨left₁, hscan, hleft₁⟩ := hs.scanSector
    refine Ends.bind ⟨left₁, hscan, rfl⟩ ?_
    rintro _ rfl
    cases left₁ with
    | answer found => exact Ends.ok hleft₁
    | next collecting =>
      refine Ends.lift (addWord_eq (by omega)) (Ends.ok ⟨?_, ?_⟩)
      · dsimp only
        rw [← List.drop_drop]
        exact hleft₁
      · dsimp only
        omega
  · next hend => exact Ends.ok (hs.of_nil (List.drop_of_length_le (by omega))).symm

/-- A lookup in a directory that can be read answers what its records say. -/
theorem findInDirectory_refines (src : Source) (q : Query) (dir : DirLoc) (calls : Nat)
    (bytes : List UInt8) (recs : List Record) (hlaid : LaidOut bytes recs)
    (hsize : bytes.length = dir.size.toNat) (hmin : 1 ≤ bytes.length)
    (hmax : bytes.length ≤ maxDirBytes)
    (hread : src.Holds (dir.lba.toNat * q.blockSize.toNat) bytes) :
    ∃ calls', findInDirectory src q dir calls
      = .ok (directoryLookup q (recs.map Record.says), calls') := by
  obtain ⟨left, hvisit, hverdict⟩ := visitAll_lookup q recs
  have hbase := blockByte_le dir.lba q.blockSize
  have hcap : maxDirBytes = 67108864 := rfl
  have hpos : dir.size ≠ 0 := by
    intro e
    rw [e] at hsize
    exact absurd hsize (by show ¬ bytes.length = 0; omega)
  have hends : Ends (findInDirectory src q dir calls) fun r => r.1 = left.verdict := by
    unfold findInDirectory
    rw [if_neg fun hbad => hbad.elim hpos (by omega)]
    refine Ends.lift (blockByte_eq dir.lba q.blockSize) ?_
    exact loop_ends (fun s : DirScan => dir.size.toNat - s.secStart)
      (fun s hs => sectorRound_comesTo hread hsize (by omega) hs) ⟨recs, hlaid, hvisit⟩
      (Nat.lt_succ_self _)
  obtain ⟨⟨found, calls'⟩, hfind, hfound⟩ := hends
  dsimp only at hfound
  exact ⟨calls', by rw [hfind, hfound, hverdict]⟩

/-- A file in two extents: the first record ends one sector, the last one
begins the next. -/
def bigFirst : Record :=
  { bytes := putDirRecord 40 1000 flagMultiExtent (utf8 "BIG.BIN;1")
    isRecord := ⟨by decide, by decide, by decide, by decide⟩ }

def bigLast : Record :=
  { bytes := putDirRecord 45 500 0 (utf8 "BIG.BIN;1")
    isRecord := ⟨by decide, by decide, by decide, by decide⟩ }

def bigQuery : Query :=
  { blockSize := 2048, component := ⟨utf8 "big.bin", by decide⟩, ns := .primary, rrSkip := 0 }

def bigFile : FileExtents :=
  { extents := [⟨81920, 1000⟩, ⟨92160, 500⟩], totalSize := 1500 }

theorem bigFile_found :
    ∃ calls, findInDirectory (.mem (padded [bigFirst] logicalSector ++ padded [bigLast] 42))
        bigQuery { lba := 0, size := 2090 } 0
      = .ok (some (.file bigFile), calls) := by
  have hfirst : (rowBytes [bigFirst]).length ≤ logicalSector := by decide
  have hlast : (rowBytes [bigLast]).length ≤ 42 := by decide
  have hlen : (padded [bigFirst] logicalSector ++ padded [bigLast] 42).length = 2090 := by
    rw [List.length_append, length_padded hfirst, length_padded hlast]
    rfl
  obtain ⟨calls, hfind⟩ := findInDirectory_refines
    (.mem (padded [bigFirst] logicalSector ++ padded [bigLast] 42)) bigQuery
    { lba := 0, size := 2090 } 0 _ ([bigFirst] ++ [bigLast])
    (.more hfirst (.last hlast (by decide))) (hlen.trans rfl) (by rw [hlen]; decide)
    (by rw [hlen]; decide) (List.prefix_refl _)
  exact ⟨calls, hfind⟩

end Dynamod.Init.Iso9660
