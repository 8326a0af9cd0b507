/-
Paths of a file system without symbolic links: how they are joined, and
which directory one leads to.

Where a relative path leads depends on where it starts. `course` takes
that apart: how many directories the path goes up from its start, and
which ones it then goes down, whatever the start is (`foldl_walk`).
-/
import Mathlib.Data.List.Basic
import Mathlib.Data.String.Basic

namespace Dynamod.Lib

-- ==== components

abbrev Component := List Char

/-- The texts between the slashes of a path. -/
def components : List Char → List Component
  | [] => [[]]
  | c :: cs =>
    if c = '/' then [] :: components cs
    else match components cs with
      | [] => [[c]]
      | d :: ds => (c :: d) :: ds

theorem components_ne_nil (cs : List Char) : components cs ≠ [] := by
  cases cs with
  | nil => simp [components]
  | cons c cs =>
    unfold components
    split
    · simp
    · split <;> simp

theorem components_append_slash (as bs : List Char) :
    components (as ++ '/' :: bs) = components as ++ components bs := by
  induction as with
  | nil => simp [components]
  | cons c as ih =>
    rw [List.cons_append, components, ih, components]
    by_cases hc : c = '/'
    · rw [if_pos hc, if_pos hc, List.cons_append]
    · rw [if_neg hc, if_neg hc]
      cases has : components as with
      | nil => exact absurd has (components_ne_nil as)
      | cons d ds => rfl

/-- A text without a slash is one component. -/
theorem components_of_no_slash {cs : List Char} (h : '/' ∉ cs) : components cs = [cs] := by
  induction cs with
  | nil => rfl
  | cons c cs ih =>
    rw [List.mem_cons, not_or] at h
    rw [components, if_neg (Ne.symm h.1), ih h.2]

-- ==== walking

/-- One step of the file system: `.` and nothing stay, `..` goes up (and
stays at the top), a name goes down. -/
def walk (dir : List Component) (c : Component) : List Component :=
  if c = [] ∨ c = ['.'] then dir
  else if c = ['.', '.'] then dir.dropLast
  else dir ++ [c]

/-- The directory an absolute path leads to. -/
def resolve (path : String) : List Component :=
  (components path.toList).foldl walk []

/-- The same step without a start: how far up, and what below. -/
def climb (course : Nat × List Component) (c : Component) : Nat × List Component :=
  if c = [] ∨ c = ['.'] then course
  else if c = ['.', '.'] then
    if course.2 = [] then (course.1 + 1, []) else (course.1, course.2.dropLast)
  else (course.1, course.2 ++ [c])

/-- How far a row of components goes up from its start, and what it then
goes down. -/
def course (cs : List Component) : Nat × List Component := cs.foldl climb (0, [])

/-- The directory a course leads to from a start. -/
def follow (dir : List Component) (course : Nat × List Component) : List Component :=
  dir.take (dir.length - course.1) ++ course.2

theorem walk_follow (dir : List Component) (course : Nat × List Component)
    (c : Component) : walk (follow dir course) c = follow dir (climb course c) := by
  obtain ⟨up, down⟩ := course
  unfold walk climb
  by_cases hstay : c = [] ∨ c = ['.']
  · rw [if_pos hstay, if_pos hstay]
  · rw [if_neg hstay, if_neg hstay]
    by_cases hup : c = ['.', '.']
    · rw [if_pos hup, if_pos hup]
      by_cases hdown : down = []
      · rw [if_pos hdown]
        unfold follow
        rw [hdown, List.append_nil, List.append_nil, List.dropLast_eq_take,
          List.take_take, List.length_take]
        congr 1
        omega
      · rw [if_neg hdown]
        exact List.dropLast_append_of_ne_nil hdown
    · rw [if_neg hup, if_neg hup]
      exact List.append_assoc _ _ _

/-- From any start a path leads where its course leads. -/
theorem foldl_walk (dir : List Component) (cs : List Component) :
    cs.foldl walk dir = follow dir (course cs) := by
  have hfold : ∀ start, cs.foldl walk (follow dir start) = follow dir (cs.foldl climb start) := by
    induction cs with
    | nil => exact fun start => rfl
    | cons c cs ih =>
      intro start
      rw [List.foldl_cons, List.foldl_cons, walk_follow]
      exact ih (climb start c)
  have hstart : follow dir (0, []) = dir := by
    unfold follow
    simp
  have hall := hfold (0, [])
  rw [hstart] at hall
  exact hall

-- ==== joining

def isAbsolute (path : String) : Bool := path.toList.head? = some '/'

/-- `Path::join`: an absolute path replaces the one it is joined to. -/
def join (path name : String) : String :=
  if isAbsolute name then name
  else if path.toList.getLast? = some '/' ∨ path = "" then path ++ name
  else path ++ "/" ++ name

/-- A relative path goes on where the path it is joined to leads. -/
theorem resolve_join {path name : String} (hpath : isAbsolute path = true)
    (hname : isAbsolute name = false) :
    resolve (join path name) = (components name.toList).foldl walk (resolve path) := by
  have hne : path ≠ "" := by
    intro h
    rw [h] at hpath
    cases hpath
  unfold join resolve
  rw [hname, if_neg Bool.false_ne_true]
  by_cases hlast : path.toList.getLast? = some '/'
  · rw [if_pos (Or.inl hlast), String.toList_append]
    obtain ⟨front, hfront⟩ := List.getLast?_eq_some_iff.1 hlast
    -- the empty component after the last slash leads nowhere
    have hpath' : components path.toList = components front ++ [[]] := by
      rw [hfront]
      exact components_append_slash front []
    have hjoined : components (path.toList ++ name.toList)
        = components front ++ components name.toList := by
      rw [hfront, List.append_assoc]
      exact components_append_slash front name.toList
    rw [hpath', hjoined, List.foldl_append, List.foldl_append]
    rfl
  · have hjoined : (path ++ "/" ++ name).toList
        = path.toList ++ '/' :: name.toList := by
      rw [String.toList_append, String.toList_append, List.append_assoc]
      rfl
    rw [if_neg (not_or.2 ⟨hlast, hne⟩), hjoined, components_append_slash, List.foldl_append]

/-- A path leads to `tail` below `dir`: an absolute one by itself, a
relative one by going down again what it went up, and then `tail`. -/
def LeadsBelow (dir : List Component) (name : String) (tail : List Component) : Prop :=
  if isAbsolute name then resolve name = dir ++ tail
  else
    let c := course (components name.toList)
    c.2 = dir.drop (dir.length - c.1) ++ tail

theorem resolve_join_eq_iff {path name : String} (hpath : isAbsolute path = true)
    (tail : List Component) : resolve (join path name) = resolve path ++ tail
      ↔ LeadsBelow (resolve path) name tail := by
  unfold LeadsBelow
  cases hname : isAbsolute name with
  | true =>
    unfold join
    rw [hname, if_pos rfl, if_pos rfl]
  | false =>
    rw [if_neg Bool.false_ne_true, resolve_join hpath hname, foldl_walk]
    unfold follow
    generalize course (components name.toList) = c
    generalize resolve path = dir
    -- the start is what is kept of it and what is left
    have hsplit : dir ++ tail = dir.take (dir.length - c.1)
        ++ (dir.drop (dir.length - c.1) ++ tail) := by
      rw [← List.append_assoc, List.take_append_drop]
    rw [hsplit, List.append_cancel_left_eq]

/-- A plain name: one component that is a name. -/
def Plain (name : String) : Prop :=
  name ≠ "" ∧ '/' ∉ name.toList ∧ name ≠ "." ∧ name ≠ ".."

theorem LeadsBelow.of_plain {name : String} (h : Plain name) (dir : List Component) :
    LeadsBelow dir name [name.toList] := by
  obtain ⟨hempty, hslash, hdot, hdots⟩ := h
  have hrelative : isAbsolute name = false := by
    unfold isAbsolute
    rw [decide_eq_false_iff_not]
    exact fun hhead => hslash (List.mem_of_head? hhead)
  have hne : ∀ text : String, name ≠ text → name.toList ≠ text.toList :=
    fun text htext e => htext (String.toList_inj.1 e)
  have hstay : ¬ (name.toList = [] ∨ name.toList = ['.']) :=
    not_or.2 ⟨hne "" hempty, hne "." hdot⟩
  have hup : name.toList ≠ ['.', '.'] := hne ".." hdots
  have hcourse : course (components name.toList) = (0, [name.toList]) := by
    rw [components_of_no_slash hslash]
    show climb (0, []) name.toList = _
    unfold climb
    rw [if_neg hstay, if_neg hup]
    rfl
  unfold LeadsBelow
  rw [hrelative, if_neg Bool.false_ne_true, hcourse]
  simp

end Dynamod.Lib
