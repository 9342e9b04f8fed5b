import M57Card.Lib.Bitmap
import M57Card.Lib.Runs
import Mathlib.Data.PNat.Defs

/-!
# The table of threads

`utils/thread.c` keeps the threads of the program in a table of `MAX_TEST_BITS` slots, each with the
name and the id of a thread, and a bitmap of the slots in use. `pthread_create_detach` (lines
98–139) refuses a name that a slot has, and claims the first slot with a zero bit: it sets the name,
then `pthread_create` sets the id, and last the bit is set. `pthread_cancel_by_name`,
`pthread_cancel_by_tid` and `pthread_exit_by_name` (lines 143–222) give a slot back.

A slot should have a name and an id exactly when its bit is set. The name is set before the thread
is created and is not taken back when that fails. The bit is set after the thread has been created,
which may have ended by then.

## Main definitions

* `ThreadSlot`, `ThreadBmp`.
* `pthreadCreateDetach`, `pthreadCancelByName`, `pthreadCancelByTid`, `pthreadExitByName`.
* `ThreadBmp.Consistent` : names, ids and bits agree, and no name is there twice.
* `TableOp`, `ThreadBmp.step`, `ThreadBmp.run`.
* `ThreadBmp.TableStep` : the calls that keep the table consistent.

## Main results

* `consistent_iff` : the table is consistent in every state of a run, and as before after every
  creation that fails, exactly when all its calls are such.
-/

namespace M57Card.Utils

open M57Card.Bitmap

/-- `MAX_TEST_BITS`. -/
def MAX_TEST_BITS : ℕ := 32

/-- The characters of a name. -/
abbrev Name : Type := List UInt8

/-- `struct thread_table_t`; an id is `0` when there is none, a name is `none` for a null pointer.
-/
structure ThreadSlot where
  tid : ℕ := 0
  name : Option Name := none
  deriving DecidableEq

/-- `tbmp` and `thread_bmp`. -/
structure ThreadBmp where
  slots : ℕ → ThreadSlot := fun _ => {}
  bmp : Word := 0#64

/-- When the new thread calls `pthread_exit_by_name`, seen from its creator. -/
inductive OwnExit where
  /-- after `pthread_create_detach` has set the bit, or never -/
  | later
  /-- before the creator reads the id from the slot -/
  | beforeTid
  /-- before the creator sets the bit -/
  | beforeBit
  deriving DecidableEq

/-- What `pthread_create` does. When it fails, it leaves any value in the slot. -/
inductive CreateOutcome where
  | failed (tid : ℕ)
  | started (tid : ℕ+) (own : OwnExit)
  deriving DecidableEq

namespace ThreadBmp

/-- Change a slot. -/
def onSlot (i : ℕ) (f : ThreadSlot → ThreadSlot) (s : ThreadBmp) : ThreadBmp :=
  { s with slots := Function.update s.slots i (f (s.slots i)) }

/-- The slot is given back, as in the three functions that do so. -/
def freeSlot (i : ℕ) (s : ThreadBmp) : ThreadBmp :=
  let s := if (s.slots i).name.isSome then
      s.onSlot i fun slot => { slot with name := none, tid := 0 }
    else
      s
  { s with bmp := clearBit i s.bmp }

/-- The first slot with a name and an id. -/
def findName (name : Name) (s : ThreadBmp) : Option ℕ :=
  (List.range MAX_TEST_BITS).find? fun i =>
    decide ((s.slots i).name = some name) && decide (0 < (s.slots i).tid)

/-- `pthread_exit_by_name`. -/
def pthreadExitByName (name : Name) (s : ThreadBmp) : ThreadBmp × ℤ :=
  match s.findName name with
  | some i => (s.freeSlot i, 0)
  | none => (s, -1)

/-- `pthread_cancel_by_name`; `cancelled` says whether `pthread_cancel` returns zero. -/
def pthreadCancelByName (name : Name) (cancelled : Bool) (s : ThreadBmp) : ThreadBmp × ℤ :=
  match s.findName name with
  | some i => if cancelled then (s.freeSlot i, 0) else (s, -1)
  | none => (s, -1)

/-- `pthread_cancel_by_tid`. -/
def pthreadCancelByTid (tid : ℕ) (cancelled : Bool) (s : ThreadBmp) : ThreadBmp × ℤ :=
  if tid = 0 then
    (s, -1)
  else
    match (List.range MAX_TEST_BITS).find? fun i => decide ((s.slots i).tid = tid) with
    | some i => if cancelled then (s.freeSlot i, 0) else (s, -1)
    | none => if cancelled then (s, 0) else (s, -1)

/-- The two checks of `pthread_create_detach`: a slot is free, and none has the name. -/
def Admits (s : ThreadBmp) (name : Name) : Prop :=
  bitmapWeight s.bmp MAX_TEST_BITS < MAX_TEST_BITS ∧
    ∀ i < MAX_TEST_BITS, (s.slots i).name ≠ some name

instance (s : ThreadBmp) (name : Name) : Decidable (s.Admits name) := by
  unfold Admits
  infer_instance

/-- `pthread_create_detach`, with the id it hands out when it returns `0`, and `none` for `-1`. -/
def pthreadCreateDetach (name : Name) (outcome : CreateOutcome) (s : ThreadBmp) :
    ThreadBmp × Option ℕ :=
  if s.Admits name then
    let i := findFirstZeroBit s.bmp MAX_TEST_BITS
    let s := s.onSlot i fun slot => { slot with name := some name }
    match outcome with
    | .failed tid => (s.onSlot i fun slot => { slot with tid := tid }, none)
    | .started tid own =>
        let s := s.onSlot i fun slot => { slot with tid := tid }
        let s := if own = .beforeTid then (s.pthreadExitByName name).1 else s
        let out := (s.slots i).tid
        let s := if own = .beforeBit then (s.pthreadExitByName name).1 else s
        ({ s with bmp := setBit i s.bmp }, some out)
  else
    (s, none)

end ThreadBmp

/-- A call of one of the functions. -/
inductive TableOp where
  | create (name : Name) (outcome : CreateOutcome)
  | cancelByName (name : Name) (cancelled : Bool)
  | cancelByTid (tid : ℕ) (cancelled : Bool)
  | exitByName (name : Name)
  deriving DecidableEq

namespace ThreadBmp

/-- The table after a call. -/
def step (s : ThreadBmp) : TableOp → ThreadBmp
  | .create name outcome => (s.pthreadCreateDetach name outcome).1
  | .cancelByName name cancelled => (s.pthreadCancelByName name cancelled).1
  | .cancelByTid tid cancelled => (s.pthreadCancelByTid tid cancelled).1
  | .exitByName name => (s.pthreadExitByName name).1

/-- The calls `ops`, one after the other, from `pthread_bmp_init` on. -/
def run (ops : List TableOp) : ThreadBmp := ops.foldl step {}

/-- The call is a creation that returns `-1`. -/
def CreateFails (s : ThreadBmp) : TableOp → Prop
  | .create name outcome => (s.pthreadCreateDetach name outcome).2 = none
  | _ => False

/-- A slot has a name and an id exactly when its bit is set, and no two slots have the same name. -/
structure Consistent (s : ThreadBmp) : Prop where
  bits : ∀ i < MAX_TEST_BITS,
    ((s.slots i).name.isSome = true ∧ (s.slots i).tid ≠ 0) ↔ s.bmp.getLsbD i = true
  distinct : ∀ i < MAX_TEST_BITS, ∀ j < MAX_TEST_BITS, ∀ name,
    (s.slots i).name = some name → (s.slots j).name = some name → i = j

/-- A creation that comes to `pthread_create` succeeds there, and the new thread does not call
`pthread_exit_by_name` before its creator has set the bit. -/
def TableStep (s : ThreadBmp) : TableOp → Prop
  | .create name outcome => s.Admits name → ∃ tid, outcome = .started tid .later
  | _ => True

theorem run_append_singleton (ops : List TableOp) (op : TableOp) :
    run (ops ++ [op]) = (run ops).step op := by
  simp [run]

/-! ### What holds between two calls -/

/-- The names, the ids and the bits agree, each with each, and no name is there twice. -/
structure Tidy (s : ThreadBmp) : Prop where
  names : ∀ i < MAX_TEST_BITS, (s.slots i).name.isSome = s.bmp.getLsbD i
  tids : ∀ i < MAX_TEST_BITS, (s.slots i).tid ≠ 0 ↔ s.bmp.getLsbD i = true
  distinct : ∀ i < MAX_TEST_BITS, ∀ j < MAX_TEST_BITS, ∀ name,
    (s.slots i).name = some name → (s.slots j).name = some name → i = j

variable {s : ThreadBmp}

theorem Tidy.consistent (hs : s.Tidy) : s.Consistent := by
  refine ⟨fun i hi => ?_, hs.distinct⟩
  rw [hs.names i hi, hs.tids i hi, and_self]

theorem MAX_lt : MAX_TEST_BITS < 64 := by decide

theorem findName_eq_some {name : Name} {i : ℕ} (h : s.findName name = some i) :
    i < MAX_TEST_BITS ∧ (s.slots i).name = some name ∧ 0 < (s.slots i).tid := by
  have hmem := List.mem_of_find?_eq_some h
  have hprop := List.find?_some h
  simp only [Bool.and_eq_true, decide_eq_true_eq] at hprop
  exact ⟨List.mem_range.mp hmem, hprop⟩

theorem freeSlot_eq {i : ℕ} (hname : (s.slots i).name.isSome = true) :
    s.freeSlot i = { slots := Function.update s.slots i {}, bmp := clearBit i s.bmp } := by
  unfold freeSlot onSlot
  rw [if_pos hname]

/-- A slot in use is given back. -/
theorem Tidy.freeSlot (hs : s.Tidy) {i : ℕ} (hi : i < MAX_TEST_BITS)
    (hname : (s.slots i).name.isSome = true) : (s.freeSlot i).Tidy := by
  rw [freeSlot_eq hname]
  have hbit (k : ℕ) : (clearBit i s.bmp).getLsbD k = (s.bmp.getLsbD k && decide (k ≠ i)) :=
    getLsbD_clearBit (hi.trans MAX_lt) s.bmp k
  refine ⟨fun k hk => ?_, fun k hk => ?_, fun k hk l hl name hkn hln => ?_⟩
  · rw [hbit]
    by_cases hki : k = i
    · simp [hki]
    · simp [hs.names k hk, hki]
  · rw [hbit]
    by_cases hki : k = i
    · simp [hki]
    · simp only [Function.update_of_ne hki, hs.tids k hk]
      simp [hki]
  · have hne (j : ℕ) (hj : (Function.update s.slots i {} j).name = some name) :
        (s.slots j).name = some name := by
      by_cases hji : j = i
      · subst hji
        rw [Function.update_self] at hj
        exact absurd hj (by simp)
      · rwa [Function.update_of_ne hji] at hj
    exact hs.distinct k hk l hl name (hne k hkn) (hne l hln)

theorem Tidy.exitByName (hs : s.Tidy) (name : Name) : (s.pthreadExitByName name).1.Tidy := by
  unfold pthreadExitByName
  split
  case h_1 i hi =>
    obtain ⟨hlt, hname, -⟩ := findName_eq_some hi
    exact hs.freeSlot hlt (by rw [hname]; rfl)
  case h_2 => exact hs

theorem Tidy.cancelByName (hs : s.Tidy) (name : Name) (cancelled : Bool) :
    (s.pthreadCancelByName name cancelled).1.Tidy := by
  unfold pthreadCancelByName
  split
  case h_1 i hi =>
    obtain ⟨hlt, hname, -⟩ := findName_eq_some hi
    split_ifs
    · exact hs.freeSlot hlt (by rw [hname]; rfl)
    · exact hs
  case h_2 => exact hs

theorem Tidy.cancelByTid (hs : s.Tidy) (tid : ℕ) (cancelled : Bool) :
    (s.pthreadCancelByTid tid cancelled).1.Tidy := by
  unfold pthreadCancelByTid
  by_cases hzero : tid = 0
  · rw [if_pos hzero]
    exact hs
  rw [if_neg hzero]
  split
  case h_1 i hi =>
    have hlt : i < MAX_TEST_BITS := List.mem_range.mp (List.mem_of_find?_eq_some hi)
    have htid : (s.slots i).tid = tid := by simpa using List.find?_some hi
    have hused : (s.slots i).tid ≠ 0 := by rwa [htid]
    split_ifs
    · refine hs.freeSlot hlt ?_
      rw [hs.names i hlt]
      exact (hs.tids i hlt).mp hused
    · exact hs
  case h_2 => split_ifs <;> exact hs

/-! ### Creations -/

/-- The slot that a creation claims. -/
theorem claimed {name : Name} (hadm : s.Admits name) :
    findFirstZeroBit s.bmp MAX_TEST_BITS < MAX_TEST_BITS ∧
      s.bmp.getLsbD (findFirstZeroBit s.bmp MAX_TEST_BITS) = false := by
  have hlt := findFirstZeroBit_lt (by decide) MAX_lt.le hadm.1
  obtain ⟨-, hend | ⟨-, hbit⟩⟩ := findFirstZeroBit_spec s.bmp MAX_lt.le
  · exact absurd hend hlt.ne
  · exact ⟨hlt, hbit⟩

/-- The slots after a creation that comes to `pthread_create`, before the bit is set. -/
def claim (name : Name) (tid : ℕ) (s : ThreadBmp) : ThreadBmp :=
  s.onSlot (findFirstZeroBit s.bmp MAX_TEST_BITS) fun _ => { tid := tid, name := some name }

theorem create_failed {name : Name} (hadm : s.Admits name) (tid : ℕ) :
    s.pthreadCreateDetach name (.failed tid) = (s.claim name tid, none) := by
  simp [pthreadCreateDetach, hadm, claim, onSlot]

theorem create_started {name : Name} (hadm : s.Admits name) (tid : ℕ+) :
    (s.pthreadCreateDetach name (.started tid .later)).1 =
      { s.claim name tid with bmp := setBit (findFirstZeroBit s.bmp MAX_TEST_BITS) s.bmp } := by
  simp [pthreadCreateDetach, hadm, claim, onSlot]

/-- A thread that ends before its bit is set. -/
theorem create_exited {name : Name} (hadm : s.Admits name) (tid : ℕ+) {own : OwnExit}
    (hown : own ≠ .later) :
    (s.pthreadCreateDetach name (.started tid own)).1 =
      { ((s.claim name tid).pthreadExitByName name).1 with
        bmp := setBit (findFirstZeroBit s.bmp MAX_TEST_BITS)
          ((s.claim name tid).pthreadExitByName name).1.bmp } := by
  cases own with
  | later => exact absurd rfl hown
  | beforeTid => simp [pthreadCreateDetach, hadm, claim, onSlot]
  | beforeBit => simp [pthreadCreateDetach, hadm, claim, onSlot]

theorem slots_claim_self {name : Name} {tid : ℕ} :
    (s.claim name tid).slots (findFirstZeroBit s.bmp MAX_TEST_BITS) =
      { tid := tid, name := some name } :=
  Function.update_self ..

theorem slots_claim_of_ne {name : Name} {tid k : ℕ}
    (hk : k ≠ findFirstZeroBit s.bmp MAX_TEST_BITS) : (s.claim name tid).slots k = s.slots k :=
  Function.update_of_ne hk ..

/-- The claimed slot is the one that has the name. -/
theorem name_claim_iff {name : Name} (hadm : s.Admits name) (tid : ℕ) {k : ℕ}
    (hk : k < MAX_TEST_BITS) : ((s.claim name tid).slots k).name = some name ↔
      k = findFirstZeroBit s.bmp MAX_TEST_BITS := by
  by_cases hki : k = findFirstZeroBit s.bmp MAX_TEST_BITS
  · rw [hki, slots_claim_self]
    simp
  · rw [slots_claim_of_ne hki]
    exact iff_of_false (hadm.2 k hk) hki

/-- A creation that succeeds, of a thread that does not end before its bit is set. -/
theorem Tidy.started (hs : s.Tidy) {name : Name} (hadm : s.Admits name) (tid : ℕ+) :
    (s.pthreadCreateDetach name (.started tid .later)).1.Tidy := by
  obtain ⟨hlt, -⟩ := claimed hadm
  rw [create_started hadm]
  have hset (k : ℕ) : (setBit (findFirstZeroBit s.bmp MAX_TEST_BITS) s.bmp).getLsbD k =
      (s.bmp.getLsbD k || decide (k = findFirstZeroBit s.bmp MAX_TEST_BITS)) :=
    getLsbD_setBit (hlt.trans MAX_lt) s.bmp k
  refine ⟨fun k hk => ?_, fun k hk => ?_, fun k hk l hl n hkn hln => ?_⟩
  · rw [hset]
    by_cases hki : k = findFirstZeroBit s.bmp MAX_TEST_BITS
    · rw [hki, slots_claim_self]
      simp
    · rw [slots_claim_of_ne hki, hs.names k hk]
      simp [hki]
  · rw [hset]
    by_cases hki : k = findFirstZeroBit s.bmp MAX_TEST_BITS
    · rw [hki, slots_claim_self]
      simp
    · rw [slots_claim_of_ne hki, hs.tids k hk]
      simp [hki]
  · by_cases hname : n = name
    · subst hname
      exact ((name_claim_iff hadm tid hk).mp hkn).trans ((name_claim_iff hadm tid hl).mp hln).symm
    · have hold (j : ℕ) (hj : ((s.claim name tid).slots j).name = some n) :
          (s.slots j).name = some n := by
        by_cases hji : j = findFirstZeroBit s.bmp MAX_TEST_BITS
        · rw [hji, slots_claim_self] at hj
          exact absurd (Option.some.inj hj).symm hname
        · rwa [slots_claim_of_ne hji] at hj
      exact hs.distinct k hk l hl n (hold k hkn) (hold l hln)

/-- A thread that ends before its bit is set leaves a bit without a name. -/
theorem not_consistent_exited {name : Name} (hadm : s.Admits name) (tid : ℕ+) {own : OwnExit}
    (hown : own ≠ .later) :
    ¬ (s.pthreadCreateDetach name (.started tid own)).1.Consistent := by
  obtain ⟨hlt, -⟩ := claimed hadm
  have hfind : (s.claim name tid).findName name = some (findFirstZeroBit s.bmp MAX_TEST_BITS) := by
    cases hcase : (s.claim name tid).findName name with
    | none =>
      have hno := List.find?_eq_none.mp hcase _ (List.mem_range.mpr hlt)
      rw [slots_claim_self] at hno
      simp at hno
    | some i =>
      obtain ⟨hi, hname, -⟩ := findName_eq_some hcase
      rw [(name_claim_iff hadm tid hi).mp hname]
  rw [create_exited hadm tid hown, pthreadExitByName, hfind]
  dsimp only
  rw [freeSlot_eq (by rw [slots_claim_self]; rfl)]
  intro hc
  have hbit := (hc.bits _ hlt).mpr
  rw [getLsbD_setBit (hlt.trans MAX_lt)] at hbit
  simp at hbit

/-- A creation that fails in `pthread_create` leaves the name. -/
theorem create_failed_ne {name : Name} (hadm : s.Admits name) (tid : ℕ) :
    (s.pthreadCreateDetach name (.failed tid)).1 ≠ s := by
  obtain ⟨hlt, -⟩ := claimed hadm
  rw [create_failed hadm]
  intro (hsame : s.claim name tid = s)
  have hname := (name_claim_iff hadm tid hlt).mpr rfl
  rw [hsame] at hname
  exact hadm.2 _ hlt hname

/-! ### Runs -/

theorem Tidy.step (hs : s.Tidy) {op : TableOp} (hop : s.TableStep op) : (s.step op).Tidy := by
  cases op with
  | create name outcome =>
    by_cases hadm : s.Admits name
    · obtain ⟨tid, rfl⟩ := hop hadm
      exact hs.started hadm tid
    · dsimp only [ThreadBmp.step]
      rw [pthreadCreateDetach, if_neg hadm]
      exact hs
  | cancelByName name cancelled => exact hs.cancelByName name cancelled
  | cancelByTid tid cancelled => exact hs.cancelByTid tid cancelled
  | exitByName name => exact hs.exitByName name

/-- A call leaves the table consistent, and as it is when it is a creation that fails, exactly when
it meets the condition. -/
theorem consistent_step_iff (hs : s.Tidy) (op : TableOp) :
    ((s.step op).Consistent ∧ (s.CreateFails op → s.step op = s)) ↔ s.TableStep op := by
  constructor
  · rintro ⟨hc, hkeep⟩
    cases op with
    | create name outcome =>
      intro hadm
      cases outcome with
      | failed tid =>
        have hfails : s.CreateFails (.create name (.failed tid)) := by
          rw [CreateFails, create_failed hadm]
        exact absurd (hkeep hfails) (create_failed_ne hadm tid)
      | started tid own =>
        by_cases hown : own = .later
        · exact ⟨tid, by rw [hown]⟩
        · exact absurd hc (not_consistent_exited hadm tid hown)
    | _ => trivial
  · intro hop
    refine ⟨(hs.step hop).consistent, fun hfails => ?_⟩
    cases op with
    | create name outcome =>
      by_cases hadm : s.Admits name
      · obtain ⟨tid, rfl⟩ := hop hadm
        simp [CreateFails, pthreadCreateDetach, hadm] at hfails
      · dsimp only [step]
        rw [pthreadCreateDetach, if_neg hadm]
    | _ => exact hfails.elim

/-- **The table of threads** is consistent in every state of a run, and left as it is by every
creation that fails, exactly when every creation that comes to `pthread_create` succeeds there and
its thread does not call `pthread_exit_by_name` before its creator has set the bit. -/
theorem consistent_iff (ops : List TableOp) :
    (∀ pre op, pre ++ [op] <+: ops →
        (run (pre ++ [op])).Consistent ∧ ((run pre).CreateFails op → run (pre ++ [op]) = run pre)) ↔
      ∀ pre op, pre ++ [op] <+: ops → (run pre).TableStep op := by
  have hstart : (run []).Tidy :=
    ⟨fun i _ => by simp [run], fun i _ => by simp [run], fun i _ j _ name h => by simp [run] at h⟩
  have hsteps := forall_steps_iff (P := Tidy) (C := TableStep)
    (Q := fun s op => (s.step op).Consistent ∧ (s.CreateFails op → s.step op = s))
    hstart (fun s op hs => hs.step) (fun s op hs => consistent_step_iff hs op) ops
  refine Iff.trans (forall₂_congr fun pre op => ?_) hsteps
  rw [run_append_singleton]
  rfl

/-- A creation that `pthread_create` refuses leaves its name, and the next one of the same name is
refused although no thread has it. -/
theorem not_consistent_failed_create :
    (run []).CreateFails (.create [115] (.failed 0)) ∧
      run [.create [115] (.failed 0)] ≠ run [] ∧
      ¬ (run [.create [115] (.failed 0)]).Admits [115] := by
  have hadm : (run []).Admits [115] := by decide
  refine ⟨?_, ?_, ?_⟩
  · rw [CreateFails, create_failed hadm]
  · exact create_failed_ne hadm 0
  · decide

end ThreadBmp

end M57Card.Utils
