/-
Which records a name is found in (`recordMatches`).

Every function here is an equation: it returns, and what it returns is said
by a function of lists. A Joliet name is the text in UCS-2 up to its version,
a plain one the text up to its version and up to the case of the letters. A
Rock Ridge name is joined from the `NM` entries of the area for the use of
the system (`rrNameOf`); where there is none, or a part of it lies elsewhere,
the plain name counts.
-/
import Mathlib.Data.List.Basic
import Dynamod.Lib.Placed
import Dynamod.Init.Iso9660

namespace Dynamod.Init.Iso9660

open Lib Loops Ascii

variable {su : List UInt8}

-- ==== the meaning

/-- The record of the directory itself, or of its parent. -/
def IsSpecial (name : List UInt8) : Prop := name = [0] ∨ name = [1]

instance (name : List UInt8) : Decidable (IsSpecial name) :=
  inferInstanceAs (Decidable (name = [0] ∨ name = [1]))

/-- A name in UCS-2 up to its version. -/
def jolietStem : List UInt8 → List UInt8
  | high :: low :: rest =>
    if high = 0 ∧ low = semicolon then [] else high :: low :: jolietStem rest
  | rest => rest

/-- A text in UCS-2, the high byte first. -/
def ucs2 (text : List UInt8) : List UInt8 := text.flatMap fun c => [0, c]

/-- A name up to its version, without a dot at its end. -/
def plainStem (name : List UInt8) : List UInt8 :=
  let front := name.takeWhile (· ≠ semicolon)
  if front.getLast? = some dot then front.dropLast else front

/-- The length that an entry gives itself. -/
def entryLen (su : List UInt8) : Nat := (su.getD 2 0).toNat

/-- The two letters of an entry. -/
def Signed (su : List UInt8) (first second : Char) : Prop :=
  su.getD 0 0 = first.toUInt8 ∧ su.getD 1 0 = second.toUInt8

instance (su : List UInt8) (first second : Char) : Decidable (Signed su first second) :=
  inferInstanceAs (Decidable (_ ∧ _))

/-- The area begins with an entry that is not the terminator. -/
def HasEntry (su : List UInt8) : Prop :=
  4 ≤ entryLen su ∧ entryLen su ≤ su.length ∧ ¬ Signed su 'S' 'T'

instance (su : List UInt8) : Decidable (HasEntry su) := inferInstanceAs (Decidable (_ ∧ _))

/-- The entries of an area behind its first `skip` bytes. -/
def entriesBehind : Nat → List UInt8 → List (List UInt8)
  | _, [] => []
  | skip + 1, _ :: rest => entriesBehind skip rest
  | 0, b :: rest =>
    if HasEntry (b :: rest) then
      (b :: rest).take (entryLen (b :: rest)) :: entriesBehind (entryLen (b :: rest) - 1) rest
    else []

/-- The entries of an area, up to the terminator or to what is no entry. -/
def entries (su : List UInt8) : List (List UInt8) := entriesBehind 0 su

/-- The entry holds a part of a name, and not the name `.` or `..`. -/
def IsNm (e : List UInt8) : Prop :=
  Signed e 'N' 'M' ∧ 5 ≤ e.length ∧ e.getD 4 0 &&& 0x06 = 0

instance (e : List UInt8) : Decidable (IsNm e) := inferInstanceAs (Decidable (_ ∧ _))

/-- The parts of the name. -/
def nmEntries (es : List (List UInt8)) : List (List UInt8) := es.filter fun e => IsNm e

/-- The name, as far as it stands in the entries. -/
def joined (es : List (List UInt8)) : List UInt8 := (nmEntries es).flatMap (·.drop 5)

/-- The part goes on in another one. -/
def Continues (e : List UInt8) : Prop := e.getD 4 0 &&& 0x01 ≠ 0

instance (e : List UInt8) : Decidable (Continues e) := inferInstanceAs (Decidable (_ ≠ _))

/-- The name that the entries give. -/
def rrNameOf (es : List (List UInt8)) : RrNameResult :=
  if rrNameLen < (joined es).length then .incomplete
  else
    match (nmEntries es).getLast? with
    | some last => if Continues last then .incomplete else .name (joined es)
    | none => if ∃ e ∈ es, Signed e 'C' 'E' then .incomplete else .none

def named (component : List UInt8) (ns : Namespace) (rrSkip : UInt8) (r : DirRecord) : Bool :=
  match ns with
  | .joliet => ¬ IsSpecial r.name ∧ jolietStem r.name = ucs2 component
  | .primary =>
    match rrNameOf (entries (r.su.drop rrSkip.toNat)) with
    | .name n => n = component
    | .incomplete => ¬ IsSpecial r.name ∧ SameLetters (plainStem r.name) component
    | .none => ¬ IsSpecial r.name ∧ SameLetters (plainStem r.name) component

-- ==== identifiers

theorem isSpecialId_eq (name : List UInt8) : isSpecialId name = .ok
    (decide (IsSpecial name)) := by
  unfold isSpecialId IsSpecial
  match name with
  | [] => rfl
  | [b] => simp [elemAt, bind, Except.bind]
  | _ :: _ :: _ => simp

section Joliet

variable {name : List UInt8}

theorem jolietStem_short {rest : List UInt8} (h : rest.length ≤ 1) : jolietStem rest = rest := by
  match rest, h with
  | [], _ => rfl
  | [b], _ => rfl

/-- The loop stops at the version, or at the end of the name. -/
theorem versionRound_loop (hname : name.length < 2 ^ 63) :
    loop (versionRound name) (name.length + 1) 0 = .ok (jolietStem name) := by
  apply Ends.eq_ok
  refine loop_ends (P := fun idx => idx ≤ name.length
    ∧ name.take idx ++ jolietStem (name.drop idx) = jolietStem name)
    (fun idx => name.length - idx) ?_ ⟨Nat.zero_le _, rfl⟩ (by omega)
  rintro idx ⟨hidx, hstem⟩
  unfold versionRound
  refine Ends.lift (addWord_eq (by omega)) ?_
  by_cases hnext : idx + 1 < name.length
  · rw [if_pos hnext]
    have hdrop : name.drop idx = name[idx] :: name[idx + 1] :: name.drop (idx + 2) := by
      rw [List.drop_eq_getElem_cons (by omega), List.drop_eq_getElem_cons hnext]
    refine Ends.lift (elemAt_eq (List.getElem?_eq_getElem (by omega))) ?_
    refine Ends.lift (elemAt_eq (List.getElem?_eq_getElem hnext)) ?_
    rw [hdrop, jolietStem] at hstem
    split
    · next hversion =>
      rw [if_pos hversion, List.append_nil] at hstem
      refine Ends.lift (cut_eq (Nat.zero_le _) hidx) (Ends.ok ?_)
      exact hstem
    · next hversion =>
      rw [if_neg hversion] at hstem
      refine Ends.lift (addWord_eq (by omega)) (Ends.ok ⟨⟨by omega, ?_⟩, by omega⟩)
      rw [← hstem, List.take_add, hdrop, List.append_assoc]
      rfl
  · rw [if_neg hnext]
    rw [jolietStem_short (by rw [List.length_drop]; omega), List.take_append_drop] at hstem
    exact Ends.ok hstem

/-- The units are compared one by one. -/
theorem unitsMatch_eq (hname : name.length < 2 ^ 63) (cs : List UInt8) :
    ∀ ci, name.length = 2 * (ci + cs.length) →
      unitsMatch name ci cs = .ok (decide (name.drop (2 * ci) = ucs2 cs)) := by
  induction cs with
  | nil =>
    intro ci hlen
    rw [List.drop_of_length_le (by rw [hlen]; simp)]
    rfl
  | cons c cs ih =>
    intro ci hlen
    rw [List.length_cons] at hlen
    have hdrop : name.drop (2 * ci)
        = name[2 * ci] :: name[2 * ci + 1] :: name.drop (2 * (ci + 1)) := by
      rw [List.drop_eq_getElem_cons (by omega), List.drop_eq_getElem_cons (by omega)]
      rfl
    have hhigh : elemAt name (2 * ci) = .ok name[2 * ci] :=
      elemAt_eq (List.getElem?_eq_getElem (by omega))
    have hlow : elemAt name (2 * ci + 1) = .ok name[2 * ci + 1] :=
      elemAt_eq (List.getElem?_eq_getElem (by omega))
    have hrest := ih (ci + 1) (by omega)
    have hucs : ucs2 (c :: cs) = 0 :: c :: ucs2 cs := rfl
    rw [hdrop, hucs, unitsMatch, mulWord_eq (by omega)]
    simp only [bind, Except.bind, hhigh]
    split
    · next hne => simp [hne]
    · next heq =>
      rw [addWord_eq (by omega)]
      simp only [hlow]
      split
      · next hne => simp [hne]
      · next heq' =>
        rw [hrest]
        simp only [ne_eq, not_not] at heq heq'
        simp [heq, heq']

theorem length_ucs2 (text : List UInt8) : (ucs2 text).length = text.length * 2 := by
  induction text with
  | nil => rfl
  | cons c text ih =>
    show (ucs2 text).length + 1 + 1 = (text.length + 1) * 2
    omega

theorem length_jolietStem_le (name : List UInt8) : (jolietStem name).length ≤ name.length := by
  fun_induction jolietStem name with
  | case1 => exact Nat.zero_le _
  | case2 high low rest h ih =>
    rw [List.length_cons, List.length_cons, List.length_cons, List.length_cons]
    omega
  | case3 => exact Nat.le_refl _

/-- A name matches if it is the component, its version aside. -/
theorem matchJolietName_eq {component : List UInt8} (hname : name.length < 2 ^ 63)
    (hcomponent : component.length < 2 ^ 63) :
    matchJolietName name component
      = .ok (decide (¬ IsSpecial name ∧ jolietStem name = ucs2 component)) := by
  have hstem := length_jolietStem_le name
  unfold matchJolietName
  rw [isSpecialId_eq, lift_ok, versionRound_loop hname, mulWord_eq (by omega), lift_ok]
  simp only [bind, Except.bind]
  by_cases hspecial : IsSpecial name
  · simp [hspecial]
    rfl
  · simp only [hspecial, decide_false, Bool.false_eq_true, if_false, not_false_eq_true, true_and]
    split
    · next hlen =>
      have hne : jolietStem name ≠ ucs2 component := by
        intro e
        rw [e, length_ucs2] at hlen
        exact hlen rfl
      simp [hne]
      rfl
    · next hlen =>
      rw [unitsMatch_eq (by omega) component 0 (by omega)]
      rfl

end Joliet

section Plain

variable (name : List UInt8)

theorem withoutVersion_eq : withoutVersion name = .ok (name.takeWhile (· ≠ semicolon)) := by
  have hneg : (fun b => !decide (b ≠ semicolon)) = (· == semicolon) := by
    funext b
    by_cases hb : b = semicolon <;> simp [hb]
  unfold withoutVersion
  rw [List.takeWhile_eq_take_findIdx_not, hneg]
  split
  · next i hi =>
    obtain ⟨hlt, hidx⟩ := List.findIdx?_eq_some_iff_findIdx_eq.1 hi
    rw [cut_eq (Nat.zero_le i) (Nat.le_of_lt hlt), hidx]
    rfl
  · next hnone =>
    rw [List.findIdx?_eq_none_iff_findIdx_eq.1 hnone, List.take_length]

theorem withoutDot_eq :
    withoutDot name = .ok (if name.getLast? = some dot then name.dropLast else name) := by
  unfold withoutDot
  split
  · next hpos =>
    have hlast : name.getLast? = some name[name.length - 1] := by
      rw [List.getLast?_eq_getElem?, List.getElem?_eq_getElem (by omega)]
    have hsub : subWord name.length 1 = .ok (name.length - 1) := subWord_eq hpos
    rw [hsub, hlast]
    show (elemAt name (name.length - 1) >>= _) = _
    rw [elemAt_eq (List.getElem?_eq_getElem (by omega))]
    simp only [bind, Except.bind, Option.some_inj]
    split
    · rw [cut_eq (Nat.zero_le _) (Nat.sub_le _ _), List.dropLast_eq_take]
      rfl
    · rfl
  · next hpos =>
    have hnil : name = [] := List.length_eq_zero_iff.1 (by omega)
    subst hnil
    rfl

/-- A plain name matches up to case, version and a final dot. -/
theorem matchPlainName_eq (component : List UInt8) :
    matchPlainName name component
      = .ok (decide (¬ IsSpecial name ∧ SameLetters (plainStem name) component)) := by
  unfold matchPlainName
  rw [isSpecialId_eq, withoutVersion_eq]
  simp only [bind, Except.bind, withoutDot_eq]
  by_cases hspecial : IsSpecial name
  · simp [hspecial]
  · simp [hspecial, plainStem]

end Plain

-- ==== Rock Ridge

theorem entriesBehind_eq (skip : Nat) (su : List UInt8) :
    entriesBehind skip su = entries (su.drop skip) := by
  unfold entries
  induction su generalizing skip with
  | nil =>
    rw [List.drop_nil]
    cases skip <;> rfl
  | cons b su ih =>
    cases skip with
    | zero => rfl
    | succ skip => exact ih skip

theorem entries_none (h : ¬ HasEntry su) : entries su = [] := by
  cases su with
  | nil => rfl
  | cons b su => exact if_neg h

theorem entries_cons (h : HasEntry su) :
    entries su = su.take (entryLen su) :: entries (su.drop (entryLen su)) := by
  cases su with
  | nil => exact absurd (Nat.le_trans h.1 h.2.1) (by decide)
  | cons b su =>
    have hlen := h.1
    rw [entries, entriesBehind, if_pos h, entriesBehind_eq]
    obtain ⟨n, hn⟩ : ∃ n, entryLen (b :: su) = n + 1 := ⟨entryLen (b :: su) - 1, by omega⟩
    rw [hn]
    rfl

/-- The bytes are an entry, and not the terminator. -/
structure IsEntry (e : List UInt8) : Prop where
  sized : (e.getD 2 0).toNat = e.length
  long : 4 ≤ e.length
  goesOn : ¬ Signed e 'S' 'T'

/-- Where an entry begins, one can be cut off. -/
theorem HasEntry.exists_entry {i : Nat} (h : HasEntry (su.drop i)) :
    ∃ e, IsEntry e ∧ Placed su i e
    ∧ entries (su.drop i) = e :: entries (su.drop (i + e.length)) := by
  obtain ⟨hfour, hinside, hst⟩ := h
  rw [List.length_drop] at hinside
  obtain ⟨e, he, hplaced, hlen⟩ := exists_placed su i (entryLen (su.drop i)) (by omega)
  have hget : ∀ k < 4, e.getD k 0 = (su.drop i).getD k 0 := by
    intro k hk
    rw [List.getD_eq_getElem?_getD, List.getD_eq_getElem?_getD, List.getElem?_drop,
      hplaced.getElem? (by omega)]
  refine ⟨e, ⟨?_, by omega, ?_⟩, hplaced, ?_⟩
  · rw [hget 2 (by omega), hlen]
    rfl
  · unfold Signed
    rw [hget 0 (by omega), hget 1 (by omega)]
    exact hst
  · rw [entries_cons ⟨hfour, by rw [List.length_drop]; exact hinside, hst⟩, ← he, hlen,
      List.drop_drop]

/-- The loop has met the entries. -/
structure RrScan.Met (s : RrScan) (es : List (List UInt8)) : Prop where
  out : s.out = joined es
  haveNm : s.haveNm = decide (nmEntries es ≠ [])
  expectingMore : s.expectingMore = decide (∃ last ∈ (nmEntries es).getLast?, Continues last)
  sawCe : s.sawCe = decide (∃ e ∈ es, Signed e 'C' 'E')
  fits : (joined es).length ≤ rrNameLen

namespace RrScan

variable {s : RrScan} {es : List (List UInt8)} {e : List UInt8}

/-- The variables behind an entry. -/
def meet (s : RrScan) (e : List UInt8) : RrScan :=
  { i := s.i + e.length
    out := if IsNm e then s.out ++ e.drop 5 else s.out
    haveNm := s.haveNm || decide (IsNm e)
    expectingMore := if IsNm e then decide (Continues e) else s.expectingMore
    sawCe := s.sawCe || decide (Signed e 'C' 'E') }

theorem Met.result (h : s.Met es) : s.result = rrNameOf es := by
  unfold RrScan.result rrNameOf
  rw [h.haveNm, h.expectingMore, h.sawCe, h.out, if_neg (Nat.not_lt.2 h.fits)]
  cases hlast : (nmEntries es).getLast? with
  | none =>
    rw [List.getLast?_eq_none_iff] at hlast
    simp [hlast]
  | some last =>
    have hne : nmEntries es ≠ [] := by
      intro e
      rw [e] at hlast
      cases hlast
    simp [hne]

theorem nmEntries_snoc (es : List (List UInt8)) (e : List UInt8) :
    nmEntries (es ++ [e]) = if IsNm e then nmEntries es ++ [e] else nmEntries es := by
  unfold nmEntries
  rw [List.filter_append]
  split
  · next h => simp [h]
  · next h => simp [h]

theorem joined_append (es fs : List (List UInt8)) :
    joined (es ++ fs) = joined es ++ joined fs := by
  unfold joined nmEntries
  rw [List.filter_append, List.flatMap_append]

theorem joined_snoc (es : List (List UInt8)) (e : List UInt8) :
    joined (es ++ [e]) = if IsNm e then joined es ++ e.drop 5 else joined es := by
  unfold joined
  rw [nmEntries_snoc]
  split
  · simp
  · rfl

/-- One entry more is met. -/
theorem Met.meet (h : s.Met es) (hfits : (joined (es ++ [e])).length ≤ rrNameLen) :
    (s.meet e).Met (es ++ [e]) := by
  refine ⟨?_, ?_, ?_, ?_, hfits⟩
  · rw [joined_snoc, ← h.out]
    rfl
  · rw [nmEntries_snoc]
    show (s.haveNm || decide (IsNm e)) = _
    rw [h.haveNm]
    split
    · next hnm => simp [hnm]
    · next hnm => simp [hnm]
  · rw [nmEntries_snoc]
    show (if IsNm e then decide (Continues e) else s.expectingMore) = _
    rw [h.expectingMore]
    split
    · simp
    · rfl
  · show (s.sawCe || decide (Signed e 'C' 'E')) = _
    rw [h.sawCe]
    simp [or_and_right, exists_or]

end RrScan

section Rounds

variable {e : List UInt8} {s : RrScan}

/-- A part of the name: it is joined, unless the buffer is full. -/
theorem nmRound_placed (h : Placed su s.i e) (hlen : 5 ≤ e.length) (hsu : su.length < 2 ^ 63)
    (hout : s.out.length ≤ rrNameLen) (next : Nat) : nmRound su e.length next s
      = .ok (if e.getD 4 0 &&& 0x06 = 0 then
          if rrNameLen < s.out.length + (e.drop 5).length then .done .incomplete
          else .again { s with
            i := next
            out := s.out ++ e.drop 5
            haveNm := true
            expectingMore := decide (Continues e) }
        else .again { s with i := next }) := by
  have hne : e ≠ [] := List.ne_nil_of_length_pos (by omega)
  have hfits := h.fits hne
  have hcap : rrNameLen = 256 := rfl
  have hpayload : cut su (s.i + 5) (s.i + e.length) = .ok (e.drop 5) := by
    rw [h.cut hne hlen (Nat.le_refl _), List.take_of_length_le (by rw [List.length_drop])]
  have hsum : (e.drop 5).length ≤ e.length := by
    rw [List.length_drop]
    omega
  unfold nmRound
  rw [addWord_eq (a := s.i) (b := 4) (by omega), addWord_eq (a := s.i) (b := 5) (by omega),
    addWord_eq (a := s.i) (b := e.length) (by omega)]
  simp only [bind, Except.bind, h.elemAt (i := 4) (by omega) 0, hpayload,
    addWord_eq (a := s.out.length) (b := (e.drop 5).length) (by omega)]
  split
  · split
    · rfl
    · rfl
  · rfl

/-- Where no entry begins, the scan is over. -/
theorem rrRound_stop (hi : s.i ≤ su.length) (hsu : su.length < 2 ^ 63)
    (h : ¬ HasEntry (su.drop s.i)) : rrRound su s = .ok (.done s.result) := by
  have hplaced : Placed su s.i (su.drop s.i) := List.prefix_refl _
  have hlen : (su.drop s.i).length = su.length - s.i := List.length_drop
  unfold rrRound
  rw [addWord_eq (by omega)]
  simp only [bind, Except.bind]
  split
  · rw [addWord_eq (by omega)]
    dsimp only
    rw [hplaced.elemAt (i := 2) (by omega) 0]
    dsimp only
    have hbyte := ((su.drop s.i).getD 2 0).toNat_lt
    split
    · rfl
    · next hfour =>
      rw [addWord_eq (by omega)]
      dsimp only
      split
      · rfl
      · next hinside =>
        -- it is long enough and inside, so it is the terminator
        have hst : Signed (su.drop s.i) 'S' 'T' := by
          refine not_not.1 fun hst => h ⟨by unfold entryLen; omega, ?_, hst⟩
          unfold entryLen
          omega
        have hfirst : elemAt su s.i = .ok _ := hplaced.elemAt (i := 0) (by omega) 0
        rw [addWord_eq (by omega), hfirst]
        dsimp only
        rw [hplaced.elemAt (i := 1) (by omega) 0]
        exact if_pos hst
  · rfl

/-- An entry is met, unless it is a part of the name that is too long. -/
theorem rrRound_step (hsu : su.length < 2 ^ 63) (hout : s.out.length ≤ rrNameLen)
    (hplaced : Placed su s.i e) (he : IsEntry e) : rrRound su s
      = .ok (if IsNm e ∧ rrNameLen < s.out.length + (e.drop 5).length then .done .incomplete
          else .again (s.meet e)) := by
  have hlong := he.long
  have hfits := hplaced.fits (List.ne_nil_of_length_pos (by omega))
  have hfirst : elemAt su s.i = .ok (e.getD 0 0) := hplaced.elemAt (i := 0) (by omega) 0
  unfold rrRound
  rw [addWord_eq (a := s.i) (b := 4) (by omega), addWord_eq (a := s.i) (b := 2) (by omega),
    addWord_eq (a := s.i) (b := 1) (by omega), hfirst]
  simp only [bind, Except.bind, hplaced.elemAt (i := 1) (by omega) 0,
    hplaced.elemAt (i := 2) (by omega) 0, he.sized,
    addWord_eq (a := s.i) (b := e.length) (by omega)]
  rw [if_pos (by omega), if_neg (by omega), if_neg (by omega)]
  refine (if_neg he.goesOn).trans ?_
  by_cases hnm : Signed e 'N' 'M' ∧ 5 ≤ e.length
  · rw [if_pos ⟨hnm.1.1, hnm.1.2, hnm.2⟩]
    refine (nmRound_placed ?_ hnm.2 hsu ?_ _).trans ?_
    · exact hplaced
    · exact hout
    by_cases hflags : e.getD 4 0 &&& 0x06 = 0
    · have hpart : IsNm e := ⟨hnm.1, hnm.2, hflags⟩
      rw [if_pos hflags]
      by_cases hlong : rrNameLen < s.out.length + (e.drop 5).length
      · rw [if_pos hlong, if_pos ⟨hpart, hlong⟩]
      · rw [if_neg hlong, if_neg fun hboth => hlong hboth.2]
        simp [RrScan.meet, hpart, Signed]
    · have hpart : ¬ IsNm e := fun hpart => hflags hpart.2.2
      rw [if_neg hflags, if_neg fun hboth => hpart hboth.1]
      simp [RrScan.meet, hpart, Signed]
  · have hpart : ¬ IsNm e := fun hpart => hnm ⟨hpart.1, hpart.2.1⟩
    rw [if_neg fun hletters => hnm ⟨⟨hletters.1, hletters.2.1⟩, hletters.2.2⟩,
      if_neg fun hboth => hpart hboth.1]
    simp [RrScan.meet, hpart, Signed]

end Rounds

/-- The loop has met the entries before the place it stands at. -/
def RrScan.Through (su : List UInt8) (s : RrScan) : Prop :=
  s.i ≤ su.length ∧ ∃ es, s.Met es ∧ es ++ entries (su.drop s.i) = entries su

/-- A round meets the next entry or comes to the answer. -/
theorem rrRound_through {s : RrScan} (hsu : su.length < 2 ^ 63)
    (h : s.Through su) : Ends (liftM (rrRound su s))
      (Round.Within (fun s' => s'.Through su ∧ su.length - s'.i < su.length - s.i)
        (· = rrNameOf (entries su))) := by
  obtain ⟨hi, es, hmet, hall⟩ := h
  have hout : s.out.length ≤ rrNameLen := hmet.out ▸ hmet.fits
  by_cases hentry : HasEntry (su.drop s.i)
  · obtain ⟨e, he, hplaced, hrest⟩ := hentry.exists_entry
    have hlong := he.long
    have hfits := hplaced.fits (List.ne_nil_of_length_pos (by omega))
    rw [hrest, ← List.singleton_append, ← List.append_assoc] at hall
    have hjoined := RrScan.joined_snoc es e
    rw [← hmet.out] at hjoined
    rw [rrRound_step hsu hout hplaced he]
    split
    · next hlong =>
      rw [if_pos hlong.1] at hjoined
      refine Ends.ok (if_pos ?_).symm
      rw [← hall, RrScan.joined_append, hjoined, List.length_append, List.length_append]
      omega
    · next hlong =>
      have hshort : (joined (es ++ [e])).length ≤ rrNameLen := by
        rw [hjoined]
        split
        · next hpart =>
          rw [List.length_append]
          exact Nat.not_lt.1 fun hlt => hlong ⟨hpart, hlt⟩
        · exact hout
      refine Ends.ok ⟨⟨hfits, es ++ [e], hmet.meet hshort, hall⟩, ?_⟩
      show su.length - (s.i + e.length) < su.length - s.i
      omega
  · rw [rrRound_stop hi hsu hentry]
    rw [entries_none hentry, List.append_nil] at hall
    refine Ends.ok ?_
    rw [← hall]
    exact hmet.result

/-- The name is the one that all entries give. -/
theorem rrName_eq {suArea : List UInt8} (skip : UInt8) (hsu : suArea.length < 2 ^ 63) :
    rrName suArea skip = .ok (rrNameOf (entries (suArea.drop skip.toNat))) := by
  unfold rrName
  split
  · next hskip =>
    rw [List.drop_of_length_le hskip]
    rfl
  · next hskip =>
    obtain ⟨su, hdrop⟩ : ∃ su, su = suArea.drop skip.toNat := ⟨_, rfl⟩
    have hlen : su.length = suArea.length - skip.toNat := by rw [hdrop, List.length_drop]
    have hcut : cut suArea skip.toNat suArea.length = .ok su := by
      rw [cut_eq (by omega) (Nat.le_refl _), List.take_of_length_le (by rw [List.length_drop]),
        hdrop]
    rw [hcut, ← hdrop]
    have hstart : RrScan.Through su {} :=
      ⟨Nat.zero_le _, [], ⟨rfl, rfl, rfl, rfl, Nat.zero_le _⟩, rfl⟩
    exact (loop_ends (fun s : RrScan => su.length - s.i)
      (fun s hs => rrRound_through (by omega) hs) hstart (Nat.lt_succ_self _)).eq_ok

/-- A record matches as its names say. -/
theorem recordMatches_eq {r : DirRecord} {component : List UInt8} (ns : Namespace)
    (rrSkip : UInt8) (hname : r.name.length < 2 ^ 63) (hsu : r.su.length < 2 ^ 63)
    (hcomponent : component.length < 2 ^ 63) :
    recordMatches r component ns rrSkip = .ok (named component ns rrSkip r) := by
  unfold recordMatches named
  cases ns with
  | joliet => exact matchJolietName_eq hname hcomponent
  | primary =>
    rw [rrName_eq rrSkip hsu]
    cases hrr : rrNameOf (entries (r.su.drop rrSkip.toNat)) with
    | name n => rfl
    | incomplete =>
      simp only [bind, Except.bind, matchPlainName_eq]
      rfl
    | none =>
      simp only [bind, Except.bind, matchPlainName_eq]
      rfl

end Dynamod.Init.Iso9660
