/-
What the copy of the squash file leaves in the tmpfs.

Three loops, each with progress that the kernel decides: a chunk is
written in pieces (`writeChunk_ok`), an extent is read in chunks
(`copyExtent_ok`), the file is read extent by extent. At every level the
destination grows by the bytes of the device between where the loop began
and where it stands, so the pieces fit together however they were cut.
-/
import Mathlib.Algebra.GroupWithZero.Nat
import Dynamod.Init.Live

namespace Dynamod.Init.Live

open Lib Iso9660

variable {st st' : Copying} {done : Nat}

def bytesAt (device : List UInt8) (offset len : Nat) : List UInt8 :=
  (device.drop offset).take len

/-- What an extent holds. -/
def content (device : List UInt8) (ext : Extent) : List UInt8 :=
  bytesAt device ext.startByte ext.size

theorem bytesAt_append (device : List UInt8) (offset a b : Nat) :
    bytesAt device offset a ++ bytesAt device (offset + a) b
      = bytesAt device offset (a + b) := by
  unfold bytesAt
  rw [List.take_add, List.drop_drop]

-- ==== the loops that return

theorem checked_ok {α : Type} {x : Checked α} {a : α} (h : checked x = .ok a) : x = .ok a := by
  cases x with
  | error t => cases h
  | ok b =>
    cases h
    rfl

theorem addWord_ok {a b c : Nat} (h : addWord a b = .ok c) : c = a + b := by
  unfold addWord addWidth at h
  split at h
  · cases h
    rfl
  · cases h

section Returned

variable {k : Kernel} {klog : Bool} {ext : Extent}

/-- A chunk that is written stands behind what was there. -/
theorem writeChunk_ok {rounds : Nat} {rest : List UInt8}
    (hrounds : rest.length ≤ rounds) (h : writeChunk k rounds rest st = .ok st') :
    st' = { st with file := st.file ++ rest, writes := st'.writes } := by
  induction rounds generalizing rest st with
  | zero =>
    cases h
    rw [List.length_eq_zero_iff.1 (Nat.le_zero.1 hrounds), List.append_nil]
  | succ rounds ih =>
    rw [writeChunk] at h
    split at h
    · next hrest =>
      cases h
      rw [hrest, List.append_nil]
    · split at h
      · cases h
      · cases h
      · next wr hwr =>
        have hshort : (rest.drop (wr + 1)).length ≤ rounds := by
          rw [List.length_drop]
          omega
        have hrec := ih hshort h
        rw [hrec]
        simp only [List.append_assoc, List.take_append_drop]

/-- What a round of the loop over an extent does. -/
structure Moved (device : List UInt8) (ext : Extent) (done done' : Nat) (st st' : Copying) :
    Prop where
  moved : done < done'
  within : done' ≤ ext.size
  there : ext.startByte + done' ≤ device.length
  file : st'.file = st.file ++ bytesAt device (ext.startByte + done) (done' - done)
  copied : st'.copied = st.copied + (done' - done)

theorem copyChunk_ok {done' : Nat} (hdone : done < ext.size)
    (h : copyChunk k klog ext done st = .ok (done', st')) :
    Moved k.device ext done done' st st' := by
  obtain ⟨offset, hoffset, h⟩ := Checked.bind_ok h
  have hoffset := addWord_ok (checked_ok hoffset)
  subst hoffset
  unfold Kernel.pread at h
  split at h
  · cases h
  · cases h
  · next b bs hread =>
    split at hread
    · cases hread
    · next n hn =>
      injection hread with hread
      obtain ⟨st₁, hwrite, h⟩ := Checked.bind_ok h
      obtain ⟨done₁, hdone₁, h⟩ := Checked.bind_ok h
      obtain ⟨copied, hcopied, h⟩ := Checked.bind_ok h
      obtain ⟨nextLogAt, -, h⟩ := Checked.bind_ok h
      cases h
      have hdone₁ := addWord_ok (checked_ok hdone₁)
      have hcopied := addWord_ok (checked_ok hcopied)
      have hst := writeChunk_ok (Nat.le_refl _) hwrite
      -- no more was read than the extent has left, and than the device has
      have hlen := congrArg List.length hread
      rw [List.length_take, List.length_drop, List.length_cons] at hlen
      rw [List.length_cons] at hdone₁ hcopied
      have hbytes : bytesAt k.device (ext.startByte + done) (bs.length + 1) = b :: bs := by
        have hfront : b :: bs <+: k.device.drop (ext.startByte + done) :=
          hread ▸ List.take_prefix _ _
        exact (List.prefix_iff_eq_take.1 hfront).symm
      refine ⟨by omega, by omega, by omega, ?_, ?_⟩
      · rw [hdone₁, Nat.add_sub_cancel_left, hbytes, hst]
      · rw [hdone₁, Nat.add_sub_cancel_left, hcopied, hst]

/-- An extent that is copied stands behind what was there. -/
theorem copyExtent_ok {rounds : Nat} (hdone : done ≤ ext.size)
    (hrounds : ext.size - done ≤ rounds) (h : copyExtent k klog ext rounds done st = .ok st') :
    st'.file = st.file ++ bytesAt k.device (ext.startByte + done) (ext.size - done)
      ∧ st'.copied = st.copied + (ext.size - done)
      ∧ (done < ext.size → ext.startByte + ext.size ≤ k.device.length) := by
  induction rounds generalizing done st with
  | zero =>
    cases h
    have hend : ext.size - done = 0 := Nat.le_zero.1 hrounds
    rw [hend]
    exact ⟨(List.append_nil _).symm, rfl, fun hlt => by omega⟩
  | succ rounds ih =>
    rw [copyExtent] at h
    split at h
    · next hlt =>
      obtain ⟨⟨done', st₁⟩, hchunk, h⟩ := Checked.bind_ok h
      have hm := copyChunk_ok hlt hchunk
      have hmoved := hm.moved
      have hwithin := hm.within
      obtain ⟨hfile, hcopied, hthere⟩ := ih hwithin (by omega) h
      refine ⟨?_, ?_, fun _ => ?_⟩
      · have hgap : ext.startByte + done' = ext.startByte + done + (done' - done) := by omega
        have hsum : done' - done + (ext.size - done') = ext.size - done := by omega
        rw [hfile, hm.file, List.append_assoc, hgap, bytesAt_append, hsum]
      · rw [hcopied, hm.copied]
        omega
      · rcases Nat.lt_or_ge done' ext.size with hlt' | hge
        · exact hthere hlt'
        · have := hm.there
          omega
    · next hend =>
      cases h
      have hend : ext.size - done = 0 := by omega
      rw [hend]
      exact ⟨(List.append_nil _).symm, rfl, fun hlt => by omega⟩

theorem copyExtents_ok {extents : List Extent}
    (h : extents.foldlM (fun st ext => copyExtent k klog ext ext.size 0 st) st = .ok st') :
    st'.file = st.file ++ extents.flatMap (content k.device)
      ∧ ∀ ext ∈ extents, 0 < ext.size → ext.startByte + ext.size ≤ k.device.length := by
  induction extents generalizing st with
  | nil =>
    cases h
    exact ⟨(List.append_nil _).symm, fun ext hext => absurd hext List.not_mem_nil⟩
  | cons ext extents ih =>
    obtain ⟨st₁, hext, h⟩ := Checked.bind_ok h
    obtain ⟨hfile₁, -, hthere₁⟩ := copyExtent_ok (Nat.zero_le _) (Nat.le_refl _) hext
    obtain ⟨hfile, hthere⟩ := ih h
    constructor
    · rw [hfile, hfile₁, List.append_assoc, List.flatMap_cons]
      rfl
    · exact List.forall_mem_cons.2 ⟨hthere₁, hthere⟩

/-- When the copy returns, the destination holds the extents one after
the other, and the device has all their bytes. -/
theorem copySquashFromBlockDev_exact (k : Kernel) (klog opensDevice opensFile : Bool)
    (extents : List Extent) (file : List UInt8)
    (h : copySquashFromBlockDev k klog opensDevice opensFile extents = .ok file) :
    file = extents.flatMap (content k.device)
      ∧ ∀ ext ∈ extents, 0 < ext.size → ext.startByte + ext.size ≤ k.device.length := by
  unfold copySquashFromBlockDev at h
  split at h
  · cases h
  split at h
  · cases h
  obtain ⟨st, hcopy, h⟩ := Checked.bind_ok h
  split at h
  · cases h
  · cases h
    exact copyExtents_ok hcopy

end Returned

/-- A device of nine bytes, read and written two bytes at a time. -/
def slowKernel : Kernel :=
  { device := [1, 2, 3, 4, 5, 6, 7, 8, 9]
    reads := fun _ => .moved 2
    writes := fun i => .moved (i % 2 + 1) }

theorem slowKernel_copied : copySquashFromBlockDev slowKernel true true true [⟨4, 5⟩, ⟨1, 3⟩]
      = .ok [5, 6, 7, 8, 9, 2, 3, 4]
    ∧ [5, 6, 7, 8, 9, 2, 3, 4]
      = [(⟨4, 5⟩ : Extent), ⟨1, 3⟩].flatMap (content slowKernel.device) := by
  have hcopy : copySquashFromBlockDev slowKernel true true true [⟨4, 5⟩, ⟨1, 3⟩]
      = .ok [5, 6, 7, 8, 9, 2, 3, 4] := rfl
  exact ⟨hcopy, (copySquashFromBlockDev_exact _ _ _ _ _ _ hcopy).1⟩

-- ==== that it returns

/-- The kernel moves a byte at least in every call. -/
structure Kernel.Willing (k : Kernel) : Prop where
  reads : ∀ i, ∃ n, k.reads i = .moved (n + 1)
  writes : ∀ i, ∃ n, k.writes i = .moved (n + 1)

section Returns

variable {k : Kernel} (hk : k.Willing) (klog : Bool)

include hk

theorem writeChunk_returns (rounds : Nat) (rest : List UInt8) (st : Copying) :
    ∃ st', writeChunk k rounds rest st = .ok st' := by
  induction rounds generalizing rest st with
  | zero => exact ⟨st, rfl⟩
  | succ rounds ih =>
    rw [writeChunk]
    split
    · exact ⟨st, rfl⟩
    · next hrest =>
      obtain ⟨n, hn⟩ := hk.writes st.writes
      obtain ⟨wr, hwr⟩ : ∃ wr, k.write st.writes rest.length = some (wr + 1) := by
        have hpos := List.length_pos_iff.2 hrest
        refine ⟨min (n + 1) rest.length - 1, ?_⟩
        rw [Kernel.write, hn]
        exact congrArg some (by omega)
      rw [hwr]
      exact ih _ _

omit hk in
theorem progress_returns (copied nextLogAt : Nat) (h : copied + logEvery < 2 ^ 63) :
    ∃ n, progress klog copied nextLogAt = .ok n := by
  unfold progress
  have hlog : logEvery = 33554432 := rfl
  split
  · rw [addWidth_eq (by omega), addWord_eq (by omega)]
    exact ⟨_, rfl⟩
  · exact ⟨_, rfl⟩

/-- What there is of an extent that the device holds is read. -/
theorem pread_some (i len offset : Nat) (hlen : 0 < len) (hthere : offset < k.device.length) :
    ∃ b bs, k.pread i len offset = some (b :: bs) ∧ (b :: bs).length ≤ len := by
  obtain ⟨n, hn⟩ := hk.reads i
  have hread : k.pread i len offset = some ((k.device.drop offset).take (min (n + 1) len)) := by
    rw [Kernel.pread, hn]
  have hcount : ((k.device.drop offset).take (min (n + 1) len)).length
      = min (min (n + 1) len) (k.device.length - offset) := by
    rw [List.length_take, List.length_drop]
  cases hbytes : (k.device.drop offset).take (min (n + 1) len) with
  | nil =>
    rw [hbytes, List.length_nil] at hcount
    omega
  | cons b bs =>
    refine ⟨b, bs, hread.trans (congrArg some hbytes), ?_⟩
    rw [hbytes] at hcount
    omega

theorem copyChunk_returns {ext : Extent} (st : Copying) (hdone : done < ext.size)
    (hthere : ext.startByte + ext.size ≤ k.device.length) (hsize : k.device.length < 2 ^ 63)
    (hcopied : st.copied + (ext.size - done) + logEvery < 2 ^ 63) :
    ∃ done' st', copyChunk k klog ext done st = .ok (done', st') := by
  have hbuf : bufLen = 16384 := rfl
  obtain ⟨b, bs, hread, hlen⟩ := pread_some hk st.reads (min bufLen (ext.size - done))
    (ext.startByte + done) (by omega) (by omega)
  obtain ⟨st₁, hwrite⟩ := writeChunk_returns hk (b :: bs).length (b :: bs)
    { st with reads := st.reads + 1 }
  have hst : st₁.copied = st.copied := by rw [writeChunk_ok (Nat.le_refl _) hwrite]
  obtain ⟨nextLogAt, hlog⟩ := progress_returns klog (st.copied + (b :: bs).length)
    st₁.nextLogAt (by omega)
  have hoffset : addWord ext.startByte done = .ok _ := addWord_eq (by omega)
  have hdone' : addWord done (b :: bs).length = .ok _ := addWord_eq (by omega)
  have hcopied' : addWord st.copied (b :: bs).length = .ok _ := addWord_eq (by omega)
  refine ⟨done + (b :: bs).length,
    { st₁ with copied := st.copied + (b :: bs).length, nextLogAt := nextLogAt }, ?_⟩
  simp only [copyChunk, checked, bind, Except.bind, Except.mapError, hoffset, hread, hwrite, hst,
    hdone', hcopied', hlog]

theorem copyExtent_returns {ext : Extent} (rounds done : Nat) (st : Copying)
    (hthere : ext.startByte + ext.size ≤ k.device.length) (hsize : k.device.length < 2 ^ 63)
    (hcopied : st.copied + (ext.size - done) + logEvery < 2 ^ 63) :
    ∃ st', copyExtent k klog ext rounds done st = .ok st' := by
  induction rounds generalizing done st with
  | zero => exact ⟨st, rfl⟩
  | succ rounds ih =>
    rw [copyExtent]
    split
    · next hdone =>
      obtain ⟨done', st₁, hchunk⟩ := copyChunk_returns hk klog st hdone hthere hsize hcopied
      have hm := copyChunk_ok hdone hchunk
      have hmoved := hm.moved
      have hwithin := hm.within
      have hcopied₁ := hm.copied
      obtain ⟨st', hrest⟩ := ih done' st₁ (by omega)
      exact ⟨st', by rw [hchunk]; exact hrest⟩
    · exact ⟨st, rfl⟩

theorem copyExtents_returns (extents : List Extent) (st : Copying)
    (hthere : ∀ ext ∈ extents, ext.startByte + ext.size ≤ k.device.length)
    (hsize : k.device.length < 2 ^ 63)
    (hcopied : st.copied + (extents.map Extent.size).sum + logEvery < 2 ^ 63) :
    ∃ st', extents.foldlM (fun st ext => copyExtent k klog ext ext.size 0 st) st = .ok st'
      ∧ st'.copied = st.copied + (extents.map Extent.size).sum := by
  induction extents generalizing st with
  | nil => exact ⟨st, rfl, rfl⟩
  | cons ext extents ih =>
    rw [List.map_cons, List.sum_cons] at hcopied ⊢
    obtain ⟨hext, hrest⟩ := List.forall_mem_cons.1 hthere
    obtain ⟨st₁, hcopy⟩ := copyExtent_returns hk klog ext.size 0 st hext hsize (by omega)
    have hcopied₁ := (copyExtent_ok (Nat.zero_le _) (Nat.le_refl _) hcopy).2.1
    obtain ⟨st', hcopy', hcopied'⟩ := ih st₁ hrest (by omega)
    refine ⟨st', ?_, by omega⟩
    rw [List.foldlM_cons, hcopy]
    exact hcopy'

/-- The copy of a file that is not empty returns, whatever the pieces the
kernel cuts it into. -/
theorem copySquashFromBlockDev_returns (extents : List Extent)
    (hthere : ∀ ext ∈ extents, ext.startByte + ext.size ≤ k.device.length)
    (hsize : k.device.length < 2 ^ 63)
    (htotal : (extents.map Extent.size).sum + logEvery < 2 ^ 63)
    (hpos : 0 < (extents.map Extent.size).sum) : copySquashFromBlockDev k klog true true extents
      = .ok (extents.flatMap (content k.device)) := by
  obtain ⟨st, hcopy, hcopied⟩ := copyExtents_returns hk klog extents
    { file := [], copied := 0, nextLogAt := logEvery, reads := 0, writes := 0 } hthere hsize
    (by rwa [Nat.zero_add])
  rw [Nat.zero_add] at hcopied
  have hfile := (copyExtents_ok hcopy).1
  rw [List.nil_append] at hfile
  simp only [copySquashFromBlockDev, not_true_eq_false, if_false, hcopy, bind, Except.bind]
  rw [if_neg (by omega), hfile]

end Returns

theorem slowKernel_returned : copySquashFromBlockDev slowKernel true true true [⟨4, 5⟩, ⟨1, 3⟩]
    = .ok ([(⟨4, 5⟩ : Extent), ⟨1, 3⟩].flatMap (content slowKernel.device)) := by
  have hk : slowKernel.Willing := ⟨fun _ => ⟨1, rfl⟩, fun i => ⟨i % 2, rfl⟩⟩
  exact copySquashFromBlockDev_returns hk true _ (by decide) (by decide) (by decide)
    (by decide)

end Dynamod.Init.Live
