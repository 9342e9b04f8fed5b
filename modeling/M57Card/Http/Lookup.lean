import M57Card.Lib.Paths
import M57Card.Rest.Routing

/-!
# The file that a request path names

`uh_path_lookup` (`file.c`, lines 159–260) puts the path of a request behind the document root,
makes a canonical path of it and looks for the longest part, cut at a `/`, that there is in the
file system. The canonical path is made by `canonpath` (lines 107–154), one character after the
other. What is found has to lie in the document root; for a directory the index file is taken.

The file system is a function from paths to what `stat` answers for them.

## Main definitions

* `canonLoop`, `canonpath`.
* `Stat`, `PathInfo`, `Lookup`, `lookupLoop`, `uhPathLookup`.
* `Within` : a path below a directory, without `.` and `..`.

## Main results

* `canonpath_eq_rooted_normal` : the loop makes the normal form.
* `within_of_uhPathLookup` : what a request is given lies in the document root.
-/

namespace M57Card.Http

open Rest (Text)
open Paths

/-! ### The canonical path -/

/-- `PATH_MAX`. -/
def PATH_MAX : ℕ := 4096

/-- The next character is a `/` or the end of the string. -/
def endsSeg (path : Text) : Bool := path.head?.getD '/' == '/'

/-- `/./`, behind its first character. -/
def isDot (path : Text) : Bool := path.head? == some '.' && endsSeg path.tail

/-- `/../`, behind its first character. -/
def isDotDot (path : Text) : Bool := path.take 2 == ['.', '.'] && endsSeg (path.drop 2)

/-- `while ((path_res > path_resolved) && (*--path_res != '/'))`, on the text written so far, its
last character in front. -/
def popSeg (res : Text) : Text := (res.dropWhile (· ≠ '/')).drop 1

/-- The loop of `canonpath`: the rest of the path, the characters up to `PATH_MAX - 2`, those to be
passed over, and the text written so far, its last character in front. -/
def canonLoop : Text → ℕ → ℕ → Text → Text
  | [], _, _, res => res
  | _ :: _, 0, _, res => res
  | _ :: path, n + 1, skip + 1, res => canonLoop path n skip res
  | c :: path, n + 1, 0, res =>
    if c ≠ '/' then canonLoop path n 0 (c :: res)
    else if path.head? = some '/' then canonLoop path n 0 res
    else if isDot path then canonLoop path n 1 res
    else if isDotDot path then canonLoop path n 2 (popSeg res)
    else canonLoop path n 0 (c :: res)

/-- The end of `canonpath`: the trailing slash goes, but not that of the root. -/
def canonEnd (res : Text) : Text :=
  if 1 < res.length ∧ res.head? = some '/' then res.tail.reverse
  else if res = [] then ['/'] else res.reverse

/-- `canonpath`. -/
def canonpath (path : Text) : Text := canonEnd (canonLoop path (PATH_MAX - 2) 0 [])

/-! ### The lookup -/

/-- The fields of `struct stat` that the server reads. -/
structure Stat where
  mode : ℕ
  size : ℕ
  mtime : ℤ
  deriving DecidableEq

/-- `st_mode & S_IFREG`. -/
def Stat.isReg (s : Stat) : Bool := s.mode &&& 0o100000 != 0

/-- `st_mode & S_IFDIR`. -/
def Stat.isDir (s : Stat) : Bool := s.mode &&& 0o040000 != 0

/-- The fields of `struct path_info` that are set for a file. -/
structure PathInfo where
  root : Text
  phys : Text
  name : Text
  info : Option Text
  stat : Stat
  deriving DecidableEq

/-- What `uh_path_lookup` returns: no file, the redirection of the client to a directory, or a
file. -/
inductive Lookup where
  | none
  | redirected (location : Text)
  | file (p : PathInfo)
  deriving DecidableEq

/-- Where the loop ends: `path_phys`, what `stat` answered for it, and `path_info`. -/
structure Found where
  phys : Text
  stat : Option Stat
  info : Text

/-- The loop over the places where the path is cut, from the end to the front. -/
def lookupLoop (stat : Text → Option Stat) (buf : Text) : ℕ → Text → Found
  | 0, phys =>
    if endsSeg buf then
      let phys := canonpath []
      match stat phys with
      | none => ⟨phys, none, []⟩
      | some st => ⟨phys, some st, buf⟩
    else ⟨phys, none, []⟩
  | i + 1, phys =>
    if endsSeg (buf.drop (i + 1)) then
      let phys := canonpath (buf.take (i + 1))
      match stat phys with
      | none => lookupLoop stat buf i phys
      | some st => ⟨phys, some st, buf.drop (i + 1)⟩
    else lookupLoop stat buf i phys

/-- The query of the request, behind a `?`. -/
def queryText : Option Text → Text
  | none => []
  | some query => '?' :: query

/-- The path of a directory with a slash behind it. -/
def withSlash (phys : Text) : Text :=
  if phys.getLast? = some '/' then phys else phys ++ ['/']

/-- The end of `uh_path_lookup` (lines 215–259), for a path in the document root that there is. -/
def lookupEnd (stat : Text → Option Stat) (docroot indexFile : Text) (query : Option Text)
    (slash : Bool) (phys : Text) (st : Stat) (info : Text) : Lookup :=
  if st.isReg then
    .file ⟨docroot, phys, phys.drop docroot.length, if info = [] then none else some info, st⟩
  else if ¬ st.isDir then .none
  else if info ≠ [] then .none
  -- the client is sent to the same path with a slash behind it
  else if ¬ slash then .redirected ((withSlash phys).drop docroot.length ++ queryText query)
  else
    let index := withSlash phys ++ indexFile
    match stat index with
    | none => .none
    | some st => .file ⟨docroot, index, index.drop docroot.length, none, st⟩

/-- `uh_path_lookup`. -/
def uhPathLookup (stat : Text → Option Stat) (docroot indexFile : Text) (query : Option Text)
    (path : Text) : Lookup :=
  let buf := docroot ++ path
  let found := lookupLoop stat buf (min buf.length (PATH_MAX - 1)) []
  if docroot.isPrefixOf found.phys ∧ endsSeg (found.phys.drop docroot.length) then
    match found.stat with
    | none => .none
    | some st =>
      lookupEnd stat docroot indexFile query (buf.getLast? == some '/') found.phys st found.info
  else .none

/-! ### The loop of `canonpath` on segments -/

/-- The text of the names on a stack, its last character in front. -/
def stackText (stack : List Text) : Text := (ofSegs stack.reverse).reverse

@[simp] theorem stackText_nil : stackText [] = [] := rfl

@[simp] theorem stackText_cons (s : Text) (stack : List Text) :
    stackText (s :: stack) = s.reverse ++ '/' :: stackText stack := by
  simp [stackText]

theorem endsSeg_ofSegs (segs : List Text) : endsSeg (ofSegs segs) = true := by
  rcases head?_ofSegs segs with h | h
  · simp [endsSeg, h]
  · simp [endsSeg, h]

theorem endsSeg_append {s path : Text} (hs : '/' ∉ s) (hne : s ≠ []) :
    endsSeg (s ++ path) = false := by
  obtain ⟨c, s, rfl⟩ := List.exists_cons_of_ne_nil hne
  have hc : c ≠ '/' := fun heq => hs (heq ▸ List.mem_cons_self)
  simp [endsSeg, hc]

/-- A `..` takes the last segment away. -/
theorem popSeg_stackText {stack : List Text} (hstack : ∀ s ∈ stack, '/' ∉ s) :
    popSeg (stackText stack) = stackText stack.tail := by
  cases stack with
  | nil => rfl
  | cons s stack =>
    have hskip : ∀ c ∈ s.reverse, decide (c ≠ '/') = true := fun c hc =>
      decide_eq_true fun heq => hstack s List.mem_cons_self (heq ▸ List.mem_reverse.mp hc)
    rw [stackText_cons, popSeg, List.dropWhile_append_of_pos hskip]
    simp

theorem canonLoop_cons (c : Char) (path : Text) (n : ℕ) (res : Text) :
    canonLoop (c :: path) (n + 1) 0 res =
      if c ≠ '/' then canonLoop path n 0 (c :: res)
      else if path.head? = some '/' then canonLoop path n 0 res
      else if isDot path then canonLoop path n 1 res
      else if isDotDot path then canonLoop path n 2 (popSeg res)
      else canonLoop path n 0 (c :: res) := by
  rw [canonLoop]

theorem canonLoop_skip (s path : Text) (n : ℕ) (res : Text) :
    canonLoop (s ++ path) (s.length + n) s.length res = canonLoop path n 0 res := by
  induction s with
  | nil => rw [List.nil_append, List.length_nil, Nat.zero_add]
  | cons c s ih =>
    rw [List.cons_append, List.length_cons, Nat.add_right_comm, canonLoop, ih]

/-- The characters of a segment are copied. -/
theorem canonLoop_copy {s : Text} (hs : '/' ∉ s) (path : Text) (n : ℕ) (res : Text) :
    canonLoop (s ++ path) (s.length + n) 0 res = canonLoop path n 0 (s.reverse ++ res) := by
  induction s generalizing res with
  | nil => rw [List.nil_append, List.length_nil, Nat.zero_add, List.reverse_nil, List.nil_append]
  | cons c s ih =>
    rw [List.mem_cons, not_or] at hs
    rw [List.cons_append, List.length_cons, Nat.add_right_comm, canonLoop_cons,
      if_pos (Ne.symm hs.1), ih hs.2, List.reverse_cons, List.append_assoc]
    rfl

theorem isDot_of_isName {s : Text} (hs : IsName s) (segs : List Text) :
    isDot (s ++ ofSegs segs) = false := by
  obtain ⟨c, s, rfl⟩ := List.exists_cons_of_ne_nil hs.ne_nil
  have hmem : '/' ∉ s := fun hc => hs.notMem (List.mem_cons_of_mem _ hc)
  by_cases hc : c = '.'
  · have hne : s ≠ [] := fun h => hs.ne_dot (by rw [hc, h])
    rw [isDot, List.cons_append, List.tail_cons, endsSeg_append hmem hne, Bool.and_false]
  · simp [isDot, hc]

theorem isDotDot_of_isName {s : Text} (hs : IsName s) (segs : List Text) :
    isDotDot (s ++ ofSegs segs) = false := by
  have hmem := hs.notMem
  match s, hs with
  | [], hs => exact absurd rfl hs.ne_nil
  | [c], hs =>
    rcases head?_ofSegs segs with h | h
    · rw [isDotDot, List.head?_eq_none_iff.mp h]
      simp
    · obtain ⟨u, hu⟩ := List.head?_eq_some_iff.mp h
      rw [isDotDot, hu]
      simp
  | c :: d :: s, hs =>
    by_cases hcd : [c, d] = ['.', '.']
    · have hne : s ≠ [] := fun h => hs.ne_dotdot (by rw [h, hcd])
      have htail : '/' ∉ s := fun h =>
        hmem (List.mem_cons_of_mem _ (List.mem_cons_of_mem _ h))
      rw [isDotDot, List.cons_append, List.cons_append, List.drop_succ_cons, List.drop_succ_cons,
        List.drop_zero, endsSeg_append htail hne, Bool.and_false]
    · have htake : (c :: d :: s ++ ofSegs segs).take 2 = [c, d] := rfl
      rw [isDotDot, htake, beq_eq_false_iff_ne.mpr hcd, Bool.false_and]

/-- One segment is read, unless it is an empty one at the end. -/
theorem canonLoop_segment {s : Text} (hs : '/' ∉ s) {segs stack : List Text}
    (hstack : ∀ t ∈ stack, '/' ∉ t) (hend : s = [] → segs ≠ []) (n : ℕ) :
    canonLoop (ofSegs (s :: segs)) (s.length + 1 + n) 0 (stackText stack) =
      canonLoop (ofSegs segs) n 0 (stackText (push stack s)) := by
  rw [ofSegs_cons, Nat.add_right_comm, canonLoop_cons, if_neg (not_not.mpr rfl)]
  rcases isName_or hs with rfl | rfl | rfl | hname
  · obtain ⟨s', segs, rfl⟩ := List.exists_cons_of_ne_nil (hend rfl)
    have hhead : ([] ++ ofSegs (s' :: segs)).head? = some '/' := rfl
    rw [if_pos hhead, push, if_pos (Or.inl rfl), List.nil_append, List.length_nil, Nat.zero_add]
  · have hdot : isDot (['.'] ++ ofSegs segs) = true := by
      rw [isDot, List.cons_append, List.nil_append, List.tail_cons, endsSeg_ofSegs]
      rfl
    rw [if_neg (by simp), if_pos hdot, push, if_pos (Or.inr rfl)]
    exact canonLoop_skip ['.'] (ofSegs segs) n _
  · have hdot : isDot (['.', '.'] ++ ofSegs segs) = false := rfl
    have hdotdot : isDotDot (['.', '.'] ++ ofSegs segs) = true := endsSeg_ofSegs segs
    rw [if_neg (by simp), hdot, if_neg Bool.false_ne_true, if_pos hdotdot,
      popSeg_stackText hstack]
    exact canonLoop_skip ['.', '.'] (ofSegs segs) n _
  · have hhead : (s ++ ofSegs segs).head? ≠ some '/' := by
      obtain ⟨c, s, rfl⟩ := List.exists_cons_of_ne_nil hname.ne_nil
      exact fun heq => hs (Option.some.inj heq ▸ List.mem_cons_self)
    rw [if_neg hhead, isDot_of_isName hname, if_neg Bool.false_ne_true, isDotDot_of_isName hname,
      if_neg Bool.false_ne_true, canonLoop_copy hs, push_of_isName hname, stackText_cons]

theorem notMem_of_mem_push {s : Text} (hs : '/' ∉ s) {stack : List Text}
    (hstack : ∀ t ∈ stack, '/' ∉ t) : ∀ t ∈ push stack s, '/' ∉ t := by
  rw [push]
  split_ifs
  · exact hstack
  · exact fun t ht => hstack t (List.mem_of_mem_tail ht)
  · exact List.forall_mem_cons.mpr ⟨hs, hstack⟩

/-- The loop leaves the names of the normal form, and a `/` behind them where the path ends with
one. -/
theorem canonLoop_ofSegs {segs stack : List Text} (hsegs : ∀ s ∈ segs, '/' ∉ s)
    (hstack : ∀ t ∈ stack, '/' ∉ t) {n : ℕ} (hn : (ofSegs segs).length ≤ n) :
    canonLoop (ofSegs segs) n 0 (stackText stack) = stackText (segs.foldl push stack) ∨
      canonLoop (ofSegs segs) n 0 (stackText stack) =
        '/' :: stackText (segs.foldl push stack) := by
  induction segs generalizing stack n with
  | nil => exact Or.inl (by rw [ofSegs_nil, canonLoop, List.foldl_nil])
  | cons s segs ih =>
    rw [List.forall_mem_cons] at hsegs
    rw [ofSegs_cons, List.length_cons, List.length_append] at hn
    by_cases hend : s = [] ∧ segs = []
    · -- the `/` at the end of the path is copied
      obtain ⟨rfl, rfl⟩ := hend
      obtain ⟨n, rfl⟩ : ∃ m, n = m + 1 := ⟨n - 1, by omega⟩
      refine Or.inr ?_
      rw [ofSegs_cons, canonLoop_cons, if_neg (not_not.mpr rfl)]
      simp [isDot, isDotDot, push, canonLoop]
    · obtain ⟨m, rfl⟩ : ∃ m, n = s.length + 1 + m := ⟨n - (s.length + 1), by omega⟩
      rw [canonLoop_segment hsegs.1 hstack (fun hs h => hend ⟨hs, h⟩), List.foldl_cons]
      exact ih hsegs.2 (notMem_of_mem_push hsegs.1 hstack) (by omega)

/-! ### The canonical path is the normal form -/

theorem canonEnd_stackText {stack : List Text} (hstack : ∀ s ∈ stack, IsName s) :
    canonEnd (stackText stack) = rooted stack.reverse := by
  cases stack with
  | nil => rfl
  | cons s stack =>
    have hname := hstack s List.mem_cons_self
    have hhead : (stackText (s :: stack)).head? ≠ some '/' := by
      rw [stackText_cons]
      obtain ⟨c, u, hu⟩ := List.exists_cons_of_ne_nil (mt List.reverse_eq_nil_iff.mp hname.ne_nil)
      rw [hu]
      intro heq
      obtain rfl : c = '/' := Option.some.inj heq
      exact hname.notMem (List.mem_reverse.mp (hu ▸ List.mem_cons_self))
    rw [canonEnd, if_neg fun h => hhead h.2, if_neg (by simp), stackText, List.reverse_reverse,
      rooted_of_ne_nil (by simp)]

theorem canonEnd_cons_stackText (stack : List Text) :
    canonEnd ('/' :: stackText stack) = rooted stack.reverse := by
  cases stack with
  | nil => rfl
  | cons s stack =>
    have hlen : 1 < ('/' :: stackText (s :: stack)).length := by
      rw [stackText_cons, List.length_cons, List.length_append, List.length_cons]
      omega
    rw [canonEnd, if_pos ⟨hlen, rfl⟩, List.tail_cons, stackText, List.reverse_reverse,
      rooted_of_ne_nil (by simp)]

theorem canonpath_ofSegs {segs : List Text} (hsegs : ∀ s ∈ segs, '/' ∉ s)
    (hlen : (ofSegs segs).length ≤ PATH_MAX - 2) :
    canonpath (ofSegs segs) = rooted (normal segs) := by
  have hnames : ∀ s ∈ segs.foldl push [], IsName s := isName_of_mem_foldl hsegs (by simp)
  rw [canonpath, ← stackText_nil]
  rcases @canonLoop_ofSegs segs [] hsegs (by simp) _ hlen with h | h
  · rw [h, canonEnd_stackText hnames, normal]
  · rw [h, canonEnd_cons_stackText, normal]

/-- The canonical path of an absolute path is its normal form. -/
theorem canonpath_eq_rooted_normal (path : Text) (hlen : ('/' :: path).length ≤ PATH_MAX - 2) :
    canonpath ('/' :: path) = rooted (normal (path.splitOn '/')) := by
  have h := canonpath_ofSegs (notMem_of_mem_splitOn path) (by rwa [ofSegs_splitOn])
  rwa [ofSegs_splitOn] at h

theorem canonpath_eq_rooted_normal_etc :
    canonpath "/etc/./x//../fpga/".toList =
      rooted (normal ("etc/./x//../fpga/".toList.splitOn '/')) :=
  canonpath_eq_rooted_normal _ (by decide)

/-- A canonical path consists of names. -/
theorem exists_canonpath_eq {path : Text} (hhead : path.head? = none ∨ path.head? = some '/')
    (hlen : path.length ≤ PATH_MAX - 2) :
    ∃ names, (∀ s ∈ names, IsName s) ∧ canonpath path = rooted names := by
  rcases hhead with h | h
  · rw [List.head?_eq_none_iff.mp h]
    exact ⟨[], by simp, rfl⟩
  · obtain ⟨path, rfl⟩ := List.head?_eq_some_iff.mp h
    have hsegs := notMem_of_mem_splitOn path
    have hcanon := canonpath_ofSegs hsegs (by rwa [ofSegs_splitOn])
    rw [ofSegs_splitOn] at hcanon
    exact ⟨_, isName_of_mem_normal hsegs, hcanon⟩

/-! ### Where the loop of the lookup ends -/

/-- Up to `n` the path is cut at `j` for the longest part that there is. -/
structure Longest (stat : Text → Option Stat) (buf : Text) (n j : ℕ) (st : Stat) : Prop where
  le : j ≤ n
  cut : endsSeg (buf.drop j) = true
  stat_eq : stat (canonpath (buf.take j)) = some st
  eq_none : ∀ k, j < k → k ≤ n → endsSeg (buf.drop k) = true →
    stat (canonpath (buf.take k)) = none

theorem Longest.succ {stat : Text → Option Stat} {buf : Text} {n j : ℕ} {st : Stat}
    (h : Longest stat buf n j st)
    (hnone : endsSeg (buf.drop (n + 1)) = true → stat (canonpath (buf.take (n + 1))) = none) :
    Longest stat buf (n + 1) j st := by
  refine ⟨Nat.le_succ_of_le h.le, h.cut, h.stat_eq, fun k hjk hk hcut => ?_⟩
  rcases Nat.le_succ_iff.mp hk with hk | rfl
  · exact h.eq_none k hjk hk hcut
  · exact hnone hcut

/-- Where the loop finds something, it is the longest part. -/
theorem longest_of_lookupLoop {stat : Text → Option Stat} {buf : Text} {n : ℕ} {phys : Text}
    {st : Stat} (h : (lookupLoop stat buf n phys).stat = some st) :
    ∃ j, Longest stat buf n j st ∧
      lookupLoop stat buf n phys = ⟨canonpath (buf.take j), some st, buf.drop j⟩ := by
  induction n generalizing phys with
  | zero =>
    rw [lookupLoop] at h ⊢
    split_ifs at h ⊢ with hcut
    cases hstat : stat (canonpath []) with
    | none => simp [hstat] at h
    | some st' =>
      simp only [hstat] at h ⊢
      obtain rfl := Option.some.inj h
      refine ⟨0, ⟨le_rfl, hcut, hstat, fun k hk hk' => ?_⟩, rfl⟩
      omega
  | succ n ih =>
    rw [lookupLoop] at h ⊢
    split_ifs at h ⊢ with hcut
    · cases hstat : stat (canonpath (buf.take (n + 1))) with
      | none =>
        simp only [hstat] at h ⊢
        obtain ⟨j, hj, heq⟩ := ih h
        exact ⟨j, hj.succ fun _ => hstat, heq⟩
      | some st' =>
        simp only [hstat] at h ⊢
        obtain rfl := Option.some.inj h
        refine ⟨n + 1, ⟨le_rfl, hcut, hstat, fun k hk hk' => ?_⟩, rfl⟩
        omega
    · obtain ⟨j, hj, heq⟩ := ih h
      exact ⟨j, hj.succ fun hcut' => absurd hcut' hcut, heq⟩

/-! ### What a request is given -/

/-- A canonical path other than the root. -/
def Canonical (path : Text) : Prop :=
  ∃ segs, segs ≠ [] ∧ (∀ s ∈ segs, IsName s) ∧ path = ofSegs segs

/-- A path below a directory, without `.` and `..`. -/
def Within (dir path : Text) : Prop := ∃ segs, (∀ s ∈ segs, IsName s) ∧ path = dir ++ ofSegs segs

/-- What is behind the document root are names, where `path_phys` passes the test. -/
theorem within_of_isPrefixOf {docroot phys : Text} (hroot : Canonical docroot) {names : List Text}
    (hnames : ∀ s ∈ names, IsName s) (hphys : phys = rooted names)
    (hpre : docroot.isPrefixOf phys = true) (hend : endsSeg (phys.drop docroot.length) = true) :
    Within docroot phys := by
  obtain ⟨segs, hne, hsegs, rfl⟩ := hroot
  obtain ⟨rest, hrest⟩ := List.isPrefixOf_iff_prefix.mp hpre
  have hhead : rest.head? = none ∨ rest.head? = some '/' := by
    rw [← hrest, List.drop_left] at hend
    cases rest with
    | nil => exact Or.inl rfl
    | cons c rest =>
      refine Or.inr (congrArg some ?_)
      simpa [endsSeg] using hend
  have hnn : names ≠ [] := by
    rintro rfl
    obtain ⟨s, segs, rfl⟩ := List.exists_cons_of_ne_nil hne
    have hlen : (ofSegs (s :: segs) ++ rest).length = 1 := by rw [hrest, hphys]; rfl
    rw [ofSegs_cons, List.length_append, List.length_cons, List.length_append] at hlen
    have hs := List.length_pos_iff.mpr (hsegs s List.mem_cons_self).ne_nil
    omega
  rw [rooted_of_ne_nil hnn] at hphys
  obtain ⟨tail, rfl, htail⟩ := exists_of_ofSegs_eq_append (fun s hs => (hsegs s hs).notMem)
    (fun s hs => (hnames s hs).notMem) hhead (hphys.symm.trans hrest.symm)
  exact ⟨tail, fun s hs => hnames s (List.mem_append_right _ hs), by rw [hphys, ofSegs_append]⟩

/-- A path of names does not end with a `/`. -/
theorem getLast?_ofSegs_ne {segs : List Text} (hsegs : ∀ s ∈ segs, IsName s) :
    (ofSegs segs).getLast? ≠ some '/' := by
  rcases List.eq_nil_or_concat segs with rfl | ⟨segs, s, rfl⟩
  · simp
  · have hname := hsegs s (by simp)
    rw [List.concat_eq_append, ofSegs_append, ofSegs_cons, ofSegs_nil, List.append_nil,
      List.getLast?_append_cons, List.getLast?_cons_of_ne_nil hname.ne_nil]
    exact fun h => hname.notMem (List.mem_of_getLast? h)

theorem getLast?_ne_of_within {docroot phys : Text} (hroot : Canonical docroot)
    (h : Within docroot phys) : phys.getLast? ≠ some '/' := by
  obtain ⟨root, -, hnames, rfl⟩ := hroot
  obtain ⟨segs, hsegs, rfl⟩ := h
  rw [← ofSegs_append]
  exact getLast?_ofSegs_ne fun s hs => (List.mem_append.mp hs).elim (hnames s) (hsegs s)

/-- A name below a directory. -/
theorem Within.name {dir path name : Text} (h : Within dir path) (hname : IsName name) :
    Within dir (path ++ ['/'] ++ name) := by
  obtain ⟨segs, hsegs, rfl⟩ := h
  refine ⟨segs ++ [name], fun s hs => ?_, by simp⟩
  rcases List.mem_append.mp hs with hs | hs
  · exact hsegs s hs
  · exact List.mem_singleton.mp hs ▸ hname

section

variable {stat : Text → Option Stat} {docroot indexFile path : Text} {query : Option Text}

/-- A lookup that ends well has found the longest part there is, within the document root. -/
theorem exists_found (hroot : Canonical docroot)
    (hlen : (docroot ++ path).length ≤ PATH_MAX - 2) {st : Stat}
    (hstat : (lookupLoop stat (docroot ++ path) (min (docroot ++ path).length (PATH_MAX - 1))
      []).stat = some st) :
    ∃ j, Longest stat (docroot ++ path) (docroot ++ path).length j st ∧
      lookupLoop stat (docroot ++ path) (min (docroot ++ path).length (PATH_MAX - 1)) [] =
        ⟨canonpath ((docroot ++ path).take j), some st, (docroot ++ path).drop j⟩ ∧
      ∃ names, (∀ s ∈ names, IsName s) ∧ canonpath ((docroot ++ path).take j) = rooted names := by
  have hmin : min (docroot ++ path).length (PATH_MAX - 1) = (docroot ++ path).length :=
    Nat.min_eq_left (hlen.trans (Nat.sub_le_sub_left (Nat.le_succ 1) _))
  rw [hmin] at hstat ⊢
  obtain ⟨j, hj, heq⟩ := longest_of_lookupLoop hstat
  refine ⟨j, hj, heq, exists_canonpath_eq ?_ ?_⟩
  · obtain ⟨segs, hne, -, rfl⟩ := hroot
    obtain ⟨s, segs, rfl⟩ := List.exists_cons_of_ne_nil hne
    cases j with
    | zero => exact Or.inl rfl
    | succ j => exact Or.inr rfl
  · exact (List.length_take_le' _ _).trans hlen

theorem getD_info (info : Text) : (if info = [] then none else some info).getD [] = info := by
  split_ifs with h
  · exact h.symm
  · rfl

theorem eq_of_lookupEnd_file {slash : Bool} {phys info : Text} {st : Stat} {p : PathInfo}
    (h : lookupEnd stat docroot indexFile query slash phys st info = .file p) :
    st.isReg = true ∧ p.phys = phys ∧ p.name = phys.drop docroot.length ∧ p.info.getD [] = info ∧
        p.stat = st ∨
      st.isDir = true ∧ info = [] ∧ p.phys = withSlash phys ++ indexFile ∧
        p.name = (withSlash phys ++ indexFile).drop docroot.length ∧
        stat (withSlash phys ++ indexFile) = some p.stat := by
  rw [lookupEnd] at h
  by_cases hreg : st.isReg = true
  · rw [if_pos hreg] at h
    obtain rfl := Lookup.file.inj h
    exact Or.inl ⟨hreg, rfl, rfl, getD_info info, rfl⟩
  · rw [if_neg hreg] at h
    split_ifs at h with hdir hinfo hslash
    cases hstat : stat (withSlash phys ++ indexFile) with
    | none => simp [hstat] at h
    | some st' =>
      simp only [hstat] at h
      obtain rfl := Lookup.file.inj h
      exact Or.inr ⟨hdir, not_not.mp hinfo, rfl, rfl, rfl⟩

theorem eq_of_lookupEnd_redirected {slash : Bool} {phys info location : Text} {st : Stat}
    (h : lookupEnd stat docroot indexFile query slash phys st info = .redirected location) :
    st.isDir = true ∧ location = (withSlash phys).drop docroot.length ++ queryText query := by
  rw [lookupEnd] at h
  by_cases hreg : st.isReg = true
  · rw [if_pos hreg] at h
    exact Lookup.noConfusion h
  · rw [if_neg hreg] at h
    split_ifs at h with hdir hinfo hslash
    · cases hstat : stat (withSlash phys ++ indexFile) with
      | none => simp [hstat] at h
      | some st' => simp [hstat] at h
    · exact ⟨hdir, (Lookup.redirected.inj h).symm⟩

/-- Anything but `.none` comes from the longest part there is, and that lies in the document
root. -/
theorem lookup_cases (hroot : Canonical docroot) (hlen : (docroot ++ path).length ≤ PATH_MAX - 2) :
    uhPathLookup stat docroot indexFile query path = .none ∨
    ∃ j st, Longest stat (docroot ++ path) (docroot ++ path).length j st ∧
      Within docroot (canonpath ((docroot ++ path).take j)) ∧
      uhPathLookup stat docroot indexFile query path =
        lookupEnd stat docroot indexFile query ((docroot ++ path).getLast? == some '/')
          (canonpath ((docroot ++ path).take j)) st ((docroot ++ path).drop j) := by
  rw [uhPathLookup]
  split_ifs with htest
  · cases hstat : (lookupLoop stat (docroot ++ path) (min (docroot ++ path).length (PATH_MAX - 1))
        []).stat with
    | none => exact Or.inl rfl
    | some st =>
      obtain ⟨j, hj, heq, names, hnames, hphys⟩ := exists_found hroot hlen hstat
      rw [heq] at htest ⊢
      exact Or.inr ⟨j, st, hj, within_of_isPrefixOf hroot hnames hphys htest.1 htest.2, rfl⟩
  · exact Or.inl rfl

/-- What a request is given lies in the document root, below names, and is the longest part of the
path that there is; a client is only sent to a directory that lies there too. -/
theorem within_of_uhPathLookup (hroot : Canonical docroot) (hindex : IsName indexFile)
    (hlen : (docroot ++ path).length ≤ PATH_MAX - 2) :
    (∀ p, uhPathLookup stat docroot indexFile query path = .file p →
      Within docroot p.phys ∧ p.phys = docroot ++ p.name ∧ stat p.phys = some p.stat ∧
      ∃ j st, Longest stat (docroot ++ path) (docroot ++ path).length j st ∧
        (st.isReg = true ∧ p.phys = canonpath ((docroot ++ path).take j) ∧
            p.info.getD [] = (docroot ++ path).drop j ∨
          st.isDir = true ∧ (docroot ++ path).drop j = [] ∧
            p.phys = canonpath (docroot ++ path) ++ ['/'] ++ indexFile)) ∧
    ∀ location, uhPathLookup stat docroot indexFile query path = .redirected location →
      ∃ segs st, (∀ s ∈ segs, IsName s) ∧ location = ofSegs segs ++ '/' :: queryText query ∧
        stat (docroot ++ ofSegs segs) = some st ∧ st.isDir = true := by
  rcases @lookup_cases stat docroot indexFile path query hroot hlen with
    h | ⟨j, st, hj, hwithin, h⟩
  · rw [h]
    exact ⟨fun p hp => Lookup.noConfusion hp, fun l hl => Lookup.noConfusion hl⟩
  · have hslash : withSlash (canonpath ((docroot ++ path).take j)) =
        canonpath ((docroot ++ path).take j) ++ ['/'] :=
      if_neg (getLast?_ne_of_within hroot hwithin)
    have hdrop : ∀ {q : Text}, Within docroot q → q = docroot ++ q.drop docroot.length := by
      rintro q ⟨segs, -, rfl⟩
      rw [List.drop_left]
    rw [h]
    refine ⟨fun p hp => ?_, fun location hl => ?_⟩
    · rcases eq_of_lookupEnd_file hp with ⟨hreg, hphys, hname, hinfo, hstat⟩ |
        ⟨hdir, hinfo, hphys, hname, hstat⟩
      · rw [hphys, hname, hstat]
        exact ⟨hwithin, hdrop hwithin, hj.stat_eq, j, st, hj, Or.inl ⟨hreg, rfl, hinfo⟩⟩
      · rw [hslash] at hphys hname hstat
        have hindexed := hwithin.name hindex
        rw [hphys, hname]
        refine ⟨hindexed, hdrop hindexed, hstat, j, st, hj, Or.inr ⟨hdir, hinfo, ?_⟩⟩
        rw [List.take_of_length_le (List.drop_eq_nil_iff.mp hinfo)]
    · obtain ⟨hdir, rfl⟩ := eq_of_lookupEnd_redirected hl
      obtain ⟨segs, hsegs, hphys⟩ := hwithin
      have hstat := hj.stat_eq
      rw [hphys] at hstat hslash
      refine ⟨segs, st, hsegs, ?_, hstat, hdir⟩
      rw [hphys, hslash, List.append_assoc, List.drop_left, List.append_assoc]
      rfl

end

theorem within_of_uhPathLookup_etc :
    ∃ p, uhPathLookup (fun q => if q = "/etc/b".toList then some ⟨0o100644, 5, 0⟩ else none)
        "/etc".toList "config.json".toList none "/x/../b/c".toList = .file p ∧
      p.info = some "/c".toList ∧ Within "/etc".toList p.phys := by
  have hroot : Canonical "/etc".toList := by
    refine ⟨["etc".toList], by decide, fun s hs => ?_, rfl⟩
    obtain rfl := List.mem_singleton.mp hs
    exact ⟨by decide, by decide, by decide, by decide⟩
  have hindex : IsName "config.json".toList := ⟨by decide, by decide, by decide, by decide⟩
  have hlen : ("/etc".toList ++ "/x/../b/c".toList).length ≤ PATH_MAX - 2 := by decide
  have hfile : uhPathLookup
      (fun q => if q = "/etc/b".toList then some ⟨0o100644, 5, 0⟩ else none)
      "/etc".toList "config.json".toList none "/x/../b/c".toList =
        .file ⟨"/etc".toList, "/etc/b".toList, "/b".toList, some "/c".toList,
          ⟨0o100644, 5, 0⟩⟩ := by decide
  exact ⟨_, hfile, rfl, ((within_of_uhPathLookup hroot hindex hlen).1 _ hfile).1⟩

end M57Card.Http
