/-
The lookup of a file on any device (`locateFileInSource`).

One lemma for each function says that it returns, whatever the bytes are:
nothing is read outside of a buffer, no number leaves its range, and every
loop comes to its end. What is carried through is `FileExtents.Sane`, what is
known of the extents that were collected so far. It bounds their sum, and it
is what the caller may rely on in the end.
-/
import Mathlib.Algebra.Order.BigOperators.Group.List
import Mathlib.Algebra.Order.Group.Nat
import Mathlib.Algebra.Group.Action.Defs
import Dynamod.Init.Proofs.IsoNames
import Dynamod.Init.Proofs.IsoRecords

namespace Dynamod.Init.Iso9660

open Lib Loops

variable {len : Nat} {blockSize : UInt32} {collecting : Option FileExtents} {s : VdScan}

-- ==== reading

/-- The buffer is filled, or it is not used. -/
def Filled (len : Nat) (r : Option (List UInt8) × Nat) : Prop :=
  ∀ bytes, r.1 = some bytes → bytes.length = len

theorem filled_none (len calls : Nat) : Filled len (none, calls) := nofun

theorem filled_some {bytes : List UInt8} (h : bytes.length = len) (calls : Nat) :
    Filled len (some bytes, calls) := by
  intro _ e
  cases e
  exact h

/-- A read of an image gives all of the bytes, or nothing. -/
theorem readMem_eq (image : List UInt8) {off : Nat} (hoff : off < 2 ^ 64) : readMem image off len
    = .ok (if off < image.length ∧ off + len ≤ image.length then
        some ((image.drop off).take len) else none) := by
  unfold readMem
  split
  · rw [if_neg (by omega)]
  · next hin =>
    have hsub : subWord image.length off = .ok (image.length - off) := subWord_eq (by omega)
    rw [castWidth_eq hoff]
    simp only [bind, Except.bind, hsub]
    split
    · rw [if_neg (by omega)]
    · rw [if_pos (by omega)]
      have hplaced : Placed image off (image.drop off) := List.prefix_refl _
      have hlen : (image.drop off).length = image.length - off := List.length_drop
      obtain ⟨tail, htail, hbytes⟩ := hplaced.cut_tail (a := 0) (n := len)
        (List.ne_nil_of_length_pos (by omega)) (by omega)
      rw [Nat.add_zero] at htail
      rw [htail]
      dsimp only
      rw [hbytes]
      rfl

/-- A device may give fewer bytes; the loop goes on, or it gives up. -/
theorem readFull_ends (src : Source) {off : Nat} (calls : Nat) (h : off + len < 2 ^ 64) :
    Ends (readFull src off len calls) (Filled len) := by
  cases src with
  | mem image =>
    refine Ends.lift (readMem_eq image (by omega)) (Ends.ok ?_)
    split
    · next hin =>
      apply filled_some
      rw [List.length_take, List.length_drop]
      omega
    · exact filled_none len calls
  | fd device =>
    refine loop_ends (P := fun s => s.1.length ≤ len) (fun s => len - s.1.length) ?_
      (Nat.zero_le _) (Nat.lt_succ_self _)
    rintro ⟨got, calls⟩ hgot
    dsimp only at hgot
    unfold readRound
    dsimp only
    split
    · next hlt =>
      refine Ends.lift (addWord_eq (by omega)) ?_
      cases hread : device.pread calls (len - got.length) (off + got.length) with
      | none => exact Ends.ok (filled_none len _)
      | some bytes =>
        have hshort := device.short _ _ _ _ hread
        cases bytes with
        | nil => exact Ends.ok (filled_none len _)
        | cons b bs =>
          refine Ends.lift (addWord_eq (by omega)) (Ends.ok ?_)
          rw [List.length_cons] at hshort
          constructor
          · dsimp only
            rw [List.length_append, List.length_cons]
            omega
          · dsimp only
            rw [List.length_append, List.length_cons]
            omega
    · exact Ends.ok (filled_some (by omega) calls)

-- ==== extents

/-- The extent a record stands for. -/
def DirRecord.extent (blockSize : UInt32) (r : DirRecord) : Extent :=
  { startByte := r.extentLba.toNat * blockSize.toNat, size := r.dataLen.toNat }

namespace FileExtents

/-- What is known of the extents at any time. -/
structure Sane (blockSize : UInt32) (fx : FileExtents) : Prop where
  count : fx.count ≤ maxExtents
  aligned : ∀ ext ∈ fx.extents, blockSize.toNat ∣ ext.startByte
  sized : ∀ ext ∈ fx.extents, ext.size < 2 ^ 32
  total : fx.totalSize = (fx.extents.map Extent.size).sum

/-- One extent more. -/
def add (fx : FileExtents) (ext : Extent) : FileExtents :=
  { extents := fx.extents ++ [ext], totalSize := fx.totalSize + ext.size }

variable {fx : FileExtents}

theorem sane_empty (blockSize : UInt32) : Sane blockSize {} :=
  ⟨Nat.zero_le _, List.forall_mem_nil _, List.forall_mem_nil _, rfl⟩

/-- Eight sizes of 32 bits do not overflow. -/
theorem Sane.totalSize_lt (h : fx.Sane blockSize) : fx.totalSize < 2 ^ 36 := by
  have hsizes : ∀ n ∈ fx.extents.map Extent.size, n ≤ 2 ^ 32 := by
    intro n hn
    obtain ⟨ext, hext, rfl⟩ := List.mem_map.1 hn
    exact Nat.le_of_lt (h.sized ext hext)
  have hsum := List.sum_le_card_nsmul _ _ hsizes
  have hcount : fx.extents.length ≤ 8 := h.count
  rw [List.length_map, smul_eq_mul] at hsum
  rw [h.total]
  omega

theorem Sane.add (h : fx.Sane blockSize) (hroom : fx.count < maxExtents) (r : DirRecord) :
    (fx.add (r.extent blockSize)).Sane blockSize := by
  refine ⟨?_, ?_, ?_, ?_⟩
  · show (fx.extents ++ [_]).length ≤ maxExtents
    rw [List.length_append]
    exact hroom
  · intro ext hext
    rcases List.mem_append.1 hext with hext | hext
    · exact h.aligned ext hext
    · rw [List.mem_singleton.1 hext]
      exact Nat.dvd_mul_left _ _
  · intro ext hext
    rcases List.mem_append.1 hext with hext | hext
    · exact h.sized ext hext
    · rw [List.mem_singleton.1 hext]
      exact r.dataLen.toNat_lt
  · show fx.totalSize + _ = ((fx.extents ++ [_]).map Extent.size).sum
    rw [List.map_append, List.sum_append, h.total]
    rfl

end FileExtents

/-- The place of a block leaves room for a directory behind it. -/
theorem blockByte_le (lba blockSize : UInt32) :
    lba.toNat * blockSize.toNat ≤ (2 ^ 32 - 1) * (2 ^ 32 - 1) :=
  Nat.mul_le_mul (Nat.le_sub_one_of_lt lba.toNat_lt) (Nat.le_sub_one_of_lt blockSize.toNat_lt)

theorem blockByte_eq (lba blockSize : UInt32) :
    mulWord lba.toNat blockSize.toNat = .ok (lba.toNat * blockSize.toNat) := by
  have hle := blockByte_le lba blockSize
  exact mulWord_eq (by omega)

/-- There is room for eight extents. -/
theorem appendExtent_eq {fx : FileExtents} (h : fx.Sane blockSize)
    (r : DirRecord) : appendExtent fx r blockSize
      = .ok (if maxExtents ≤ fx.count then none else some (fx.add (r.extent blockSize))) := by
  unfold appendExtent
  split
  · rfl
  · next hroom =>
    have hlt : fx.count < maxExtents := Nat.lt_of_not_le hroom
    have hcap : maxExtents = 8 := rfl
    have htotal := h.totalSize_lt
    have hsize := r.dataLen.toNat_lt
    rw [blockByte_eq]
    simp only [bind, Except.bind, if_pos hlt]
    rw [addWidth_eq (by omega)]
    rw [addWord_eq (by omega)]
    rfl

namespace Left

/-- What is known of the extents when a piece of a directory is left. -/
def Sane (blockSize : UInt32) : Left → Prop
  | .answer found => ∀ fx, found = some (.file fx) → fx.Sane blockSize
  | .next collecting => ∀ fx, collecting = some fx → fx.Sane blockSize

end Left

theorem collect_ok {fx : FileExtents} (h : fx.Sane blockSize)
    (r : DirRecord) : ∃ left, collect blockSize fx r = .ok left ∧ left.Sane blockSize := by
  unfold collect
  rw [appendExtent_eq h]
  simp only [bind, Except.bind]
  split
  · exact ⟨_, rfl, nofun⟩
  · next fx' hfx =>
    have hsane : fx'.Sane blockSize := by
      split at hfx
      · cases hfx
      · next hroom =>
        cases hfx
        exact h.add (Nat.lt_of_not_le hroom) r
    split
    · exact ⟨_, rfl, fun _ e => by cases e; exact hsane⟩
    · exact ⟨_, rfl, fun _ e => by cases e; exact hsane⟩

/-- A record is another one's, the directory's, or one more of the file. -/
theorem takeRecord_ok (h : ∀ fx, collecting = some fx → fx.Sane blockSize) (matched : Bool)
    (r : DirRecord) :
    ∃ left, takeRecord blockSize matched collecting r = .ok left ∧ left.Sane blockSize := by
  cases collecting with
  | some fx =>
    unfold takeRecord
    dsimp only
    split
    · exact ⟨_, rfl, nofun⟩
    · exact collect_ok (h fx rfl) r
  | none =>
    unfold takeRecord
    dsimp only
    split
    · exact ⟨_, rfl, nofun⟩
    split
    · split
      · exact ⟨_, rfl, nofun⟩
      · exact ⟨_, rfl, nofun⟩
    · exact collect_ok (FileExtents.sane_empty blockSize) r

-- ==== directories

section Directories

variable (q : Query)

theorem visitRecord_ends {bytes : List UInt8}
    (h : ∀ fx, collecting = some fx → fx.Sane q.blockSize) (hrec : IsRecord bytes) :
    Ends (visitRecord q collecting (recordOf bytes)) (Left.Sane q.blockSize) := by
  have hname := hrec.length_name_lt
  have hsu := hrec.length_su_lt
  unfold visitRecord
  rw [recordMatches_eq q.ns q.rrSkip (by omega) (by omega) q.component.fits]
  obtain ⟨left, htake, hleft⟩ := takeRecord_ok h
    (named q.component.bytes q.ns q.rrSkip (recordOf bytes)) (recordOf bytes)
  exact Ends.lift_last htake hleft

/-- Each round goes on behind a record, so the sector ends. -/
theorem scanSector_ends {chunk : List UInt8}
    (hchunk : chunk.length < 2 ^ 63) (h : ∀ fx, collecting = some fx → fx.Sane q.blockSize) :
    Ends (scanSector q chunk collecting) (Left.Sane q.blockSize) := by
  refine loop_ends (P := fun s => ∀ fx, s.2 = some fx → fx.Sane q.blockSize)
    (fun s => chunk.length - s.1) ?_ h (Nat.lt_succ_self _)
  rintro ⟨off, collecting⟩ hs
  unfold recordRound
  dsimp only
  split
  · next hoff =>
    rcases parseDirRecord_cases chunk off hchunk with hpad | hbad | ⟨bytes, hrec, hplaced, hparse⟩
    · exact Ends.lift hpad (Ends.ok hs)
    · exact Ends.lift hbad (Ends.ok nofun)
    · refine Ends.lift hparse (Ends.bind (visitRecord_ends q hs hrec) ?_)
      intro left hleft
      cases left with
      | answer found => exact Ends.ok hleft
      | next collecting =>
        have hlong := hrec.long
        have hfits := hplaced.fits hrec.ne_nil
        rw [hrec.recLen_eq]
        refine Ends.lift (addWord_eq (by omega)) (Ends.ok ⟨hleft, ?_⟩)
        omega
  · exact Ends.ok hs

/-- What is known of the answer of a lookup. -/
def SaneFound (blockSize : UInt32) (r : Option Found × Nat) : Prop :=
  ∀ fx, r.1 = some (.file fx) → fx.Sane blockSize

/-- Each round goes on to the next sector, so the directory ends. -/
theorem findInDirectory_ends (src : Source) (dir : DirLoc) (calls : Nat) :
    Ends (findInDirectory src q dir calls) (SaneFound q.blockSize) := by
  unfold findInDirectory
  split
  · exact Ends.ok nofun
  next hsize =>
  have hmax : dir.size.toNat ≤ 67108864 := Nat.not_lt.1 fun hlt => hsize (Or.inr hlt)
  have hbase := blockByte_le dir.lba q.blockSize
  refine Ends.lift (blockByte_eq dir.lba q.blockSize) ?_
  refine loop_ends (P := fun s => ∀ fx, s.collecting = some fx → fx.Sane q.blockSize)
    (fun s => dir.size.toNat - s.secStart) ?_ nofun (Nat.lt_succ_self _)
  intro s hs
  have hsec : logicalSector = 2048 := rfl
  unfold sectorRound
  split
  · next hlt =>
    refine Ends.lift (subWord_eq (by omega)) ?_
    refine Ends.lift (castWidth_eq (by omega)) ?_
    refine Ends.lift (addWord_eq (by omega)) ?_
    refine Ends.bind (readFull_ends src s.calls (by omega)) ?_
    rintro ⟨bytes, calls⟩ hfilled
    cases bytes with
    | none => exact Ends.ok nofun
    | some bytes =>
      have hlen := hfilled bytes rfl
      refine Ends.bind (scanSector_ends q (by omega) hs) ?_
      intro left hleft
      cases left with
      | answer found => exact Ends.ok hleft
      | next collecting =>
        refine Ends.lift (addWord_eq (by omega)) (Ends.ok ⟨hleft, ?_⟩)
        dsimp only
        omega
  · exact Ends.ok nofun

end Directories

-- ==== volumes

/-- The block sizes `readBlockSize` lets through. -/
def Supported (blockSize : UInt32) : Prop :=
  blockSize = 512 ∨ blockSize = 1024 ∨ blockSize = 2048

theorem elemAt_ok {bs : List UInt8} {i : Nat} (h : i < bs.length) : ∃ b, elemAt bs i = .ok b :=
  ⟨bs[i], elemAt_eq (List.getElem?_eq_getElem h)⟩

theorem isJolietEscape_ok (esc : List UInt8) : ∃ joliet, isJolietEscape esc = .ok joliet := by
  unfold isJolietEscape
  split
  · next hlen =>
    have helem : ∀ i < 3, ∃ b, elemAt esc i = .ok b := fun i hi => elemAt_ok (by omega)
    obtain ⟨first, hfirst⟩ := helem 0 (by omega)
    obtain ⟨second, hsecond⟩ := helem 1 (by omega)
    obtain ⟨third, hthird⟩ := helem 2 (by omega)
    simp only [hfirst, hsecond, hthird, bind, Except.bind]
    exact ⟨_, rfl⟩
  · exact ⟨false, rfl⟩

section Volumes

variable {sector : List UInt8} (hsector : sector.length = logicalSector)

include hsector

theorem readBlockSize_ok :
    ∃ bs, readBlockSize sector = .ok bs ∧ ∀ n, bs = some n → Supported n := by
  have hlen : logicalSector = 2048 := rfl
  unfold readBlockSize
  rw [cut_eq (by omega) (by omega)]
  simp only [bind, Except.bind]
  split
  · exact ⟨none, rfl, nofun⟩
  · next hbs =>
    refine ⟨_, rfl, fun n e => ?_⟩
    cases e
    generalize leNat ((sector.drop 128).take (130 - 128)) = bs at hbs
    obtain rfl | rfl | rfl : bs = 512 ∨ bs = 1024 ∨ bs = 2048 := by omega
    · exact Or.inl rfl
    · exact Or.inr (Or.inl rfl)
    · exact Or.inr (Or.inr rfl)

theorem rootDirFromVd_ok : ∃ root, rootDirFromVd sector = .ok root := by
  have hlen : logicalSector = 2048 := rfl
  unfold rootDirFromVd
  rcases parseDirRecord_cases sector 156 (by omega) with hp | hp | ⟨bytes, -, -, hp⟩
  · exact ⟨none, by rw [hp]; rfl⟩
  · exact ⟨none, by rw [hp]; rfl⟩
  · rw [hp]
    simp only [bind, Except.bind]
    split
    · exact ⟨_, rfl⟩
    · exact ⟨_, rfl⟩

/-- A descriptor leaves the place in the list, and a supported block size. -/
theorem takeRoot_ok (h : Supported s.vol.blockSize)
    {put : Volume → Option DirLoc → Volume}
    (hput : ∀ vol root, (put vol root).blockSize = vol.blockSize) :
    ∃ s', takeRoot sector s put = .ok s' ∧ s'.i = s.i ∧ Supported s'.vol.blockSize := by
  obtain ⟨bs, hbs, hsupported⟩ := readBlockSize_ok hsector
  obtain ⟨root, hroot⟩ := rootDirFromVd_ok hsector
  unfold takeRoot
  rw [hbs]
  cases bs with
  | none => exact ⟨s, rfl, rfl, h⟩
  | some n =>
    simp only [bind, Except.bind, hroot]
    refine ⟨_, rfl, rfl, ?_⟩
    rw [hput]
    split
    · exact h
    · exact hsupported n rfl

theorem takeDescriptor_ok (kind : UInt8) (h : Supported s.vol.blockSize) :
    ∃ s', takeDescriptor sector kind s = .ok s' ∧ s'.i = s.i ∧ Supported s'.vol.blockSize := by
  have hlen : logicalSector = 2048 := rfl
  unfold takeDescriptor
  split
  · split
    · exact takeRoot_ok hsector h fun _ _ => rfl
    · exact ⟨s, rfl, rfl, h⟩
  split
  · split
    · obtain ⟨joliet, hjoliet⟩ := isJolietEscape_ok ((sector.drop 88).take (120 - 88))
      rw [cut_eq (by omega) (by omega)]
      simp only [bind, Except.bind, hjoliet]
      split
      · exact takeRoot_ok hsector h fun _ _ => rfl
      · exact ⟨s, rfl, rfl, h⟩
    · exact ⟨s, rfl, rfl, h⟩
  · exact ⟨s, rfl, rfl, h⟩

end Volumes

/-- What is known of the volume. -/
def SupportedVolume (r : Option Volume × Nat) : Prop :=
  ∀ vol, r.1 = some vol → Supported vol.blockSize

theorem supportedVolume_some {vol : Volume} (h : Supported vol.blockSize) (calls : Nat) :
    SupportedVolume (some vol, calls) := by
  intro _ e
  cases e
  exact h

/-- A round reads the next descriptor, and there are 32 at most. -/
theorem vdRound_ends (src : Source) (hs : Supported s.vol.blockSize) :
    Ends (vdRound src s) (Round.Within (fun s' => Supported s'.vol.blockSize
        ∧ maxVdSectors - s'.i < maxVdSectors - s.i) SupportedVolume) := by
  have hsec : logicalSector = 2048 := rfl
  have hstart : vdStartByte = 32768 := rfl
  have hmax : maxVdSectors = 32 := rfl
  unfold vdRound
  split
  · next hi =>
    have hpos : s.i * logicalSector ≤ 31 * 2048 := Nat.mul_le_mul (by omega) (Nat.le_of_eq hsec)
    refine Ends.lift (mulWord_eq (by omega)) ?_
    refine Ends.lift (addWord_eq (by omega)) ?_
    refine Ends.bind (readFull_ends src s.calls (by omega)) ?_
    rintro ⟨buf, calls⟩ hfilled
    cases buf with
    | none => exact Ends.ok nofun
    | some buf =>
      have hlen := hfilled buf rfl
      refine Ends.lift (cut_eq (by omega) (by omega)) ?_
      split
      · refine Ends.ok ?_
        split
        · exact nofun
        · exact supportedVolume_some hs calls
      refine Ends.lift (elemAt_eq (List.getElem?_eq_getElem (by omega))) ?_
      split
      · exact Ends.ok (supportedVolume_some hs calls)
      · obtain ⟨s', htake, hi', hs'⟩ := takeDescriptor_ok hlen buf[0]
          (s := { s with calls := calls }) hs
        dsimp only at hi'
        refine Ends.lift htake (Ends.lift (addWidth_eq (by omega)) (Ends.ok ⟨hs', ?_⟩))
        dsimp only
        omega
  · exact Ends.ok (supportedVolume_some hs s.calls)

theorem scanVolumeDescriptors_ends (src : Source) (calls : Nat) :
    Ends (scanVolumeDescriptors src calls) SupportedVolume := by
  unfold scanVolumeDescriptors
  refine Ends.bind (loop_ends (fun s : VdScan => maxVdSectors - s.i)
    (fun s hs => vdRound_ends src hs) (Or.inr (Or.inr rfl)) (Nat.lt_succ_self _)) ?_
  rintro ⟨vol, calls⟩ hvol
  cases vol with
  | none => exact Ends.ok nofun
  | some vol =>
    dsimp only
    split
    · exact Ends.ok nofun
    · exact Ends.ok hvol

-- ==== paths

theorem rrSkipLen_ok (su : List UInt8) : ∃ skip, rrSkipLen su = .ok skip := by
  unfold rrSkipLen
  split
  · exact ⟨0, rfl⟩
  next hlen =>
  have helem : ∀ i < 7, ∃ b, elemAt su i = .ok b := fun i hi => elemAt_ok (by omega)
  obtain ⟨b₀, h₀⟩ := helem 0 (by omega)
  obtain ⟨b₁, h₁⟩ := helem 1 (by omega)
  obtain ⟨b₂, h₂⟩ := helem 2 (by omega)
  obtain ⟨b₄, h₄⟩ := helem 4 (by omega)
  obtain ⟨b₅, h₅⟩ := helem 5 (by omega)
  simp only [h₀, h₁, h₂, h₄, h₅, bind, Except.bind]
  split
  · exact ⟨0, rfl⟩
  split
  · exact ⟨0, rfl⟩
  split
  · exact ⟨0, rfl⟩
  split
  · exact ⟨0, rfl⟩
  split
  · exact ⟨0, rfl⟩
  · exact helem 6 (by omega)

theorem rootRrSkip_ends (src : Source) (blockSize : UInt32) (root : DirLoc) (calls : Nat) :
    Ends (rootRrSkip src blockSize root calls) fun _ => True := by
  have hsec : logicalSector = 2048 := rfl
  have hbase := blockByte_le root.lba blockSize
  unfold rootRrSkip
  refine Ends.lift (castWidth_eq (by omega)) ?_
  split
  · exact Ends.ok trivial
  · refine Ends.lift (blockByte_eq root.lba blockSize) ?_
    refine Ends.bind (readFull_ends src calls (by omega)) ?_
    rintro ⟨buf, calls⟩ hfilled
    cases buf with
    | none => exact Ends.ok trivial
    | some buf =>
      have hlen := hfilled buf rfl
      rcases parseDirRecord_cases buf 0 (by omega) with hp | hp | ⟨bytes, -, -, hp⟩
      · exact Ends.lift hp (Ends.ok trivial)
      · exact Ends.lift hp (Ends.ok trivial)
      · obtain ⟨skip, hskip⟩ := rrSkipLen_ok (recordOf bytes).su
        exact Ends.lift hp (Ends.lift hskip (Ends.ok trivial))

/-- What is known of a file that is found. -/
def Located (blockSize : UInt32) (r : Option FileExtents × Nat) : Prop :=
  ∀ fx, r.1 = some fx → fx.Sane blockSize ∧ fx.totalSize ≠ 0

/-- By induction on the components; the depth is checked first. -/
theorem walkFrom_ends (src : Source) (blockSize : UInt32) (ns : Namespace) (rrSkip : UInt8)
    (components : List Text) : ∀ {depth : Nat} (cur : DirLoc)
    (calls : Nat), depth ≤ maxPathDepth →
      Ends (walkFrom src blockSize ns rrSkip components depth cur calls) (Located blockSize) := by
  induction components with
  | nil => exact fun cur calls hdepth => Ends.ok nofun
  | cons component rest ih =>
    intro depth cur calls hdepth
    have hmax : maxPathDepth = 8 := rfl
    refine Ends.lift (addWord_eq (by omega)) ?_
    split
    · exact Ends.ok nofun
    · next hdeep =>
      refine Ends.bind (findInDirectory_ends _ src cur calls) ?_
      rintro ⟨found, calls⟩ hsane
      cases found with
      | none => exact Ends.ok nofun
      | some found =>
        cases found with
        | dir d =>
          dsimp only
          split
          · exact Ends.ok nofun
          · exact ih d calls (by omega)
        | file fx =>
          dsimp only
          split
          · exact Ends.ok nofun
          split
          · exact Ends.ok nofun
          · next hsize =>
            refine Ends.ok fun _ e => ?_
            cases e
            exact ⟨hsane fx rfl, hsize⟩

theorem walkRoot_ends (src : Source) (blockSize : UInt32) (root : Option DirLoc) (path : Text)
    (ns : Namespace) (calls : Nat) :
    Ends (walkRoot src blockSize root path ns calls) (Located blockSize) := by
  cases root with
  | none => exact Ends.ok nofun
  | some root =>
    show Ends (walkPath src blockSize root path ns calls) _
    unfold walkPath
    split
    · exact Ends.ok nofun
    · next hlen =>
      refine Ends.lift (elemAt_eq (List.getElem?_eq_getElem (by omega))) ?_
      split
      · exact Ends.ok nofun
      · cases ns with
        | joliet => exact walkFrom_ends src blockSize .joliet 0 _ root calls (Nat.zero_le _)
        | primary =>
          refine Ends.bind (rootRrSkip_ends src blockSize root calls) ?_
          rintro ⟨rrSkip, calls⟩ -
          exact walkFrom_ends src blockSize .primary rrSkip _ root calls (Nat.zero_le _)

/-- The lookup returns on every device and for every path. The extents of a
file that it finds begin at blocks, there are one to eight of them, and they
make up the size, which is not zero. -/
theorem locateFileInSource_safe (src : Source) (path : Text) (calls : Nat) :
    ∃ found calls', locateFileInSource src path calls = .ok (found, calls')
      ∧ ∀ fx, found = some fx →
        ∃ vol calls₁, scanVolumeDescriptors src calls = .ok (some vol, calls₁)
          ∧ Supported vol.blockSize
          ∧ 1 ≤ fx.count ∧ fx.count ≤ maxExtents
          ∧ (∀ ext ∈ fx.extents, vol.blockSize.toNat ∣ ext.startByte)
          ∧ fx.totalSize = (fx.extents.map Extent.size).sum
          ∧ 0 < fx.totalSize := by
  obtain ⟨⟨vol, calls₁⟩, hscan, hvol⟩ := scanVolumeDescriptors_ends src calls
  have hends : Ends (locateFileInSource src path calls) fun r => ∀ fx, r.1 = some fx →
      ∃ v, vol = some v ∧ fx.Sane v.blockSize ∧ fx.totalSize ≠ 0 := by
    unfold locateFileInSource
    rw [hscan]
    cases vol with
    | none => exact Ends.ok nofun
    | some vol =>
      show Ends (walkRoot src vol.blockSize vol.jolietRoot path .joliet calls₁ >>= _) _
      refine Ends.bind (walkRoot_ends src vol.blockSize vol.jolietRoot path .joliet calls₁) ?_
      rintro ⟨found, calls₂⟩ hfound
      cases found with
      | some fx => exact Ends.ok fun fx e => ⟨vol, rfl, hfound fx e⟩
      | none =>
        refine (walkRoot_ends src vol.blockSize vol.pvdRoot path .primary calls₂).mono ?_
        exact fun r hr fx e => ⟨vol, rfl, hr fx e⟩
  obtain ⟨⟨found, calls'⟩, hlocate, hfound⟩ := hends
  refine ⟨found, calls', hlocate, fun fx e => ?_⟩
  obtain ⟨v, rfl, hsane, hsize⟩ := hfound fx e
  refine ⟨v, calls₁, hscan, hvol v rfl, ?_, hsane.count, hsane.aligned, hsane.total,
    Nat.pos_of_ne_zero hsize⟩
  -- without an extent the size would be zero
  refine Nat.one_le_iff_ne_zero.2 fun hnone => hsize ?_
  rw [hsane.total, List.length_eq_zero_iff.1 hnone]
  rfl

/-- A descriptor of a volume whose root directory is one record at block 20. -/
def discDescriptor : List UInt8 :=
  [1] ++ utf8 "CD001" ++ List.replicate 122 0 ++ toLE 2 2048 ++ List.replicate 26 0
    ++ putDirRecord 20 46 flagDir [0] ++ List.replicate 1858 0

def discTerminator : List UInt8 := [255] ++ utf8 "CD001" ++ List.replicate 2042 0

/-- A disc with one file. -/
def smallDisc : Device where
  pread _ len off :=
    if off = 32768 then some (discDescriptor.take len)
    else if off = 34816 then some (discTerminator.take len)
    else if off = 40960 then some ((putDirRecord 40 1000 0 (utf8 "ROOT.SQUASH;1")).take len)
    else none
  short := by
    intro call len off bytes h
    split at h
    · cases h
      exact List.length_take_le _ _
    split at h
    · cases h
      exact List.length_take_le _ _
    split at h
    · cases h
      exact List.length_take_le _ _
    · cases h

def rootSquash : Text := ⟨utf8 "/root.squash", by decide⟩

theorem smallDisc_located :
    ∃ fx calls, locateFileInSource (.fd smallDisc) rootSquash 0 = .ok (some fx, calls)
      ∧ fx = { extents := [⟨81920, 1000⟩], totalSize := 1000 }
      ∧ ∃ vol calls', scanVolumeDescriptors (.fd smallDisc) 0 = .ok (some vol, calls')
        ∧ ∀ ext ∈ fx.extents, vol.blockSize.toNat ∣ ext.startByte := by
  obtain ⟨found, calls, hlocate, hfound⟩ := locateFileInSource_safe (.fd smallDisc) rootSquash 0
  have hvalue : (locateFileInSource (.fd smallDisc) rootSquash 0).toOption
      = some (some { extents := [⟨81920, 1000⟩], totalSize := 1000 }, 4) := by
    decide +kernel
  rw [hlocate] at hvalue
  cases hvalue
  obtain ⟨vol, calls', hscan, -, -, -, haligned, -⟩ := hfound _ rfl
  exact ⟨_, _, hlocate, rfl, vol, calls', hscan, haligned⟩

end Dynamod.Init.Iso9660
