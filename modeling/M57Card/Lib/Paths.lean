import M57Card.Lib.Fields

/-!
# Paths and their normal form

An absolute path is a list of segments, each with a `/` in front of it. In the normal form the
segments that are empty or `.` are left out and each `..` takes away the segment before it, if there
is one; what is left are names.

## Main definitions

* `ofSegs`, `rooted` : the text of a list of segments.
* `push`, `normal` : the normal form, by a stack.
* `IsName` : the segments of a normal form.

## Main results

* `isName_of_mem_normal` : a normal form has names only.
* `exists_of_ofSegs_eq_append` : what follows a path at the end of a segment are segments.
-/

namespace M57Card.Paths

/-- The text of a list of segments. -/
def ofSegs (segs : List (List Char)) : List Char := segs.flatMap ('/' :: ·)

/-- The text of a list of segments, where no segments are the root. -/
def rooted (segs : List (List Char)) : List Char := if segs = [] then ['/'] else ofSegs segs

/-- One segment more on the stack of the names so far. -/
def push (stack : List (List Char)) (s : List Char) : List (List Char) :=
  if s = [] ∨ s = ['.'] then stack else if s = ['.', '.'] then stack.tail else s :: stack

/-- The names that are left of the segments. -/
def normal (segs : List (List Char)) : List (List Char) := (segs.foldl push []).reverse

/-- A segment that names something below its directory. -/
structure IsName (s : List Char) : Prop where
  ne_nil : s ≠ []
  ne_dot : s ≠ ['.']
  ne_dotdot : s ≠ ['.', '.']
  notMem : '/' ∉ s

/-! ### The text of segments -/

@[simp] theorem ofSegs_nil : ofSegs [] = [] := rfl

@[simp] theorem ofSegs_cons (s : List Char) (segs : List (List Char)) :
    ofSegs (s :: segs) = '/' :: (s ++ ofSegs segs) := rfl

@[simp] theorem ofSegs_append (l l' : List (List Char)) :
    ofSegs (l ++ l') = ofSegs l ++ ofSegs l' :=
  List.flatMap_append

/-- A path starts at its first segment. -/
theorem head?_ofSegs (segs : List (List Char)) :
    (ofSegs segs).head? = none ∨ (ofSegs segs).head? = some '/' := by
  cases segs with
  | nil => exact Or.inl rfl
  | cons s segs => exact Or.inr rfl

theorem rooted_of_ne_nil {segs : List (List Char)} (h : segs ≠ []) : rooted segs = ofSegs segs :=
  if_neg h

/-- An absolute path is the text of its segments. -/
theorem ofSegs_splitOn (path : List Char) : ofSegs (path.splitOn '/') = '/' :: path := by
  induction path using Fields.induction_on_fields '/' with
  | last s hs => rw [List.splitOn_eq_singleton hs, ofSegs_cons, ofSegs_nil, List.append_nil]
  | field x y hx ih => rw [List.splitOn_append_cons_self_of_not_mem hx, ofSegs_cons, ih]

theorem notMem_of_mem_splitOn (path : List Char) : ∀ s ∈ path.splitOn '/', '/' ∉ s := by
  induction path using Fields.induction_on_fields '/' with
  | last s hs => simpa [List.splitOn_eq_singleton hs] using hs
  | field x y hx ih =>
    rw [List.splitOn_append_cons_self_of_not_mem hx]
    exact List.forall_mem_cons.mpr ⟨hx, ih⟩

/-! ### The normal form -/

theorem push_of_isName {s : List Char} (hs : IsName s) (stack : List (List Char)) :
    push stack s = s :: stack := by
  rw [push, if_neg (not_or.mpr ⟨hs.ne_nil, hs.ne_dot⟩), if_neg hs.ne_dotdot]

/-- The segments that are no names. -/
theorem isName_or {s : List Char} (hs : '/' ∉ s) :
    s = [] ∨ s = ['.'] ∨ s = ['.', '.'] ∨ IsName s := by
  by_contra hcon
  rw [not_or, not_or, not_or] at hcon
  exact hcon.2.2.2 ⟨hcon.1, hcon.2.1, hcon.2.2.1, hs⟩

theorem isName_of_mem_push {stack : List (List Char)} {s : List Char} (hs : '/' ∉ s)
    (hstack : ∀ t ∈ stack, IsName t) : ∀ t ∈ push stack s, IsName t := by
  rcases isName_or hs with rfl | rfl | rfl | hname
  · exact hstack
  · exact hstack
  · exact fun t ht => hstack t (List.mem_of_mem_tail ht)
  · rw [push_of_isName hname]
    exact List.forall_mem_cons.mpr ⟨hname, hstack⟩

theorem isName_of_mem_foldl {segs stack : List (List Char)} (hsegs : ∀ s ∈ segs, '/' ∉ s)
    (hstack : ∀ t ∈ stack, IsName t) : ∀ t ∈ segs.foldl push stack, IsName t := by
  induction segs generalizing stack with
  | nil => exact hstack
  | cons s segs ih =>
    rw [List.forall_mem_cons] at hsegs
    exact ih hsegs.2 (isName_of_mem_push hsegs.1 hstack)

/-- A normal form has names only. -/
theorem isName_of_mem_normal {segs : List (List Char)} (hsegs : ∀ s ∈ segs, '/' ∉ s) :
    ∀ t ∈ normal segs, IsName t := by
  intro t ht
  exact isName_of_mem_foldl hsegs (by simp) t (List.mem_reverse.mp ht)

/-! ### A path in front of another -/

/-- The first segment ends at the next `/` or at the end of the path. -/
theorem eq_of_append_ofSegs {s t : List Char} (hs : '/' ∉ s) (ht : '/' ∉ t)
    {u v : List Char} (hu : u.head? = none ∨ u.head? = some '/')
    (hv : v.head? = none ∨ v.head? = some '/') (h : s ++ u = t ++ v) : s = t ∧ u = v := by
  have htake : ∀ {x y : List Char}, '/' ∉ x → (y.head? = none ∨ y.head? = some '/') →
      (x ++ y).takeWhile (· ≠ '/') = x := by
    intro x y hx hy
    rw [Fields.takeWhile_of_not_mem hx]
    cases y with
    | nil => simp
    | cons c y =>
      obtain rfl : c = '/' := by simpa using hy
      simp
  have heq : s = t := by rw [← htake hs hu, h, htake ht hv]
  exact ⟨heq, List.append_cancel_left (heq ▸ h)⟩

/-- What follows a path at the end of a segment are segments. -/
theorem exists_of_ofSegs_eq_append {l m : List (List Char)} {rest : List Char}
    (hl : ∀ s ∈ l, '/' ∉ s) (hm : ∀ s ∈ m, '/' ∉ s)
    (hrest : rest.head? = none ∨ rest.head? = some '/') (h : ofSegs m = ofSegs l ++ rest) :
    ∃ m', m = l ++ m' ∧ rest = ofSegs m' := by
  induction l generalizing m with
  | nil => exact ⟨m, rfl, h.symm⟩
  | cons s l ih =>
    rw [List.forall_mem_cons] at hl
    cases m with
    | nil => exact absurd h (by simp)
    | cons t m =>
      rw [List.forall_mem_cons] at hm
      rw [ofSegs_cons, ofSegs_cons, List.cons_append, List.append_assoc, List.cons_inj_right] at h
      have hhead : (ofSegs l ++ rest).head? = none ∨ (ofSegs l ++ rest).head? = some '/' := by
        cases l with
        | nil => exact hrest
        | cons s' l => exact Or.inr rfl
      obtain ⟨rfl, htail⟩ := eq_of_append_ofSegs hm.1 hl.1 (head?_ofSegs m) hhead h
      obtain ⟨m', rfl, hm'⟩ := ih hl.2 hm.2 htail
      exact ⟨m', rfl, hm'⟩

end M57Card.Paths
