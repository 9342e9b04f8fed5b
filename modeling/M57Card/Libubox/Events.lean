import Mathlib.Data.Finset.Basic
import Mathlib.Data.List.Lemmas
import Mathlib.Logic.Function.Basic
import M57Card.Lib.Simulation

/-!
# Events of descriptors

The event loop (`uloop.c`) fetches events from the kernel and calls the callbacks of their
descriptors. A callback can add and delete descriptors, free them, and run the event loop again. An
event for a descriptor whose callback is running is kept on its frame and passed on when the
callback returns, if the descriptor is edge-triggered.

A call of `uloop_run_events` is a `fetch`, when no event is left, and then as many `iter` as there
are until a callback is called. Which of its operations a callback makes, and how deep it runs the
loop again, is the order of the operations. Descriptors without a callback are left out.

## Main definitions

* `EventLoop`, `EventLoop.unregister`, `EventLoop.fdDelete`, `EventLoop.fdAdd`,
  `EventLoop.fetchOne`, `EventLoop.iter`, `EventLoop.ret` : the code.
* `EventLoop.Good` : what callers and the kernel keep to.

## Main results

* `alive_of_eventRun` : no callback of a descriptor is called that has been freed.
* `delivered_of_eventRun` : no event is lost.
-/

namespace M57Card.Libubox

open Simulation

/-! ### The model -/

/-- `ULOOP_READ` and `ULOOP_WRITE`. -/
inductive Interest where
  | read | write
  deriving DecidableEq

/-- The bits of `ULOOP_EVENT_MASK`. -/
abbrev Mask := Finset Interest

/-- `struct uloop_fd`, with the flags `ULOOP_EDGE_TRIGGER` and `ULOOP_ERROR_CB`. -/
structure UloopFd where
  registered : Bool := false
  edge : Bool := false
  errorCb : Bool := false

/-- `struct uloop_fd_event`. -/
structure FdEvent where
  fd : Option ℕ
  events : Mask

/-- `struct uloop_fd_stack`: the descriptor whose callback runs, and its events that are kept. -/
structure FdStack where
  fd : Option ℕ
  events : Mask

/-- An event of `epoll_wait`. -/
structure KernelEvent where
  fd : ℕ
  /-- `EPOLLERR` or `EPOLLHUP` -/
  fault : Bool
  rdhup : Bool
  events : Mask

/-- The descriptors, the events of `cur_fds` that are left, and the callbacks that run, the
innermost first. For the statements: which descriptors are allocated, and the events of each that
have been fetched and not been passed on. -/
structure EventLoop where
  fd : ℕ → UloopFd := fun _ => {}
  cur : List FdEvent := []
  stack : List FdStack := []
  alive : ℕ → Bool := fun _ => false
  owed : ℕ → Mask := fun _ => ∅

/-- The innermost frame of a descriptor is changed. -/
def changeFrame (x : ℕ) (change : FdStack → FdStack) : List FdStack → Option (List FdStack)
  | [] => none
  | f :: stack =>
    if f.fd = some x then some (change f :: stack)
    else (changeFrame x change stack).map (f :: ·)

namespace EventLoop

variable (s : EventLoop)

/-- `uloop_fd_stack_event`, with nothing for `false`. -/
def stackEvent (x : ℕ) (change : FdStack → FdStack) : Option (List FdStack) :=
  if (s.fd x).edge then changeFrame x change s.stack else none

/-- `uloop_fd_delete` behind its loop. -/
def unregister (x : ℕ) : EventLoop :=
  { s with
    fd := if (s.fd x).registered then Function.update s.fd x {} else s.fd
    stack := if (s.fd x).registered then
        (s.stackEvent x fun f => { f with fd := none }).getD s.stack
      else s.stack
    owed := Function.update s.owed x ∅ }

/-- The loop of `uloop_fd_delete`. -/
def clearCur (x : ℕ) : EventLoop :=
  { s with cur := s.cur.map fun e => if e.fd = some x then { e with fd := none } else e }

/-- `uloop_fd_delete`. -/
def fdDelete (x : ℕ) : EventLoop := (s.clearCur x).unregister x

/-- `uloop_fd_add`, when `epoll_ctl` succeeds. -/
def fdAdd (x : ℕ) (events : Mask) (edge errorCb : Bool) : EventLoop :=
  if events = ∅ then s.fdDelete x
  else { s with fd := Function.update s.fd x ⟨true, edge, errorCb⟩ }

/-- An iteration of `uloop_fetch_events`. While it runs `cur_nfds` is zero, so that a descriptor
that it deletes stays in `cur_fds`. -/
def fetchOne (ev : KernelEvent) : EventLoop :=
  let s := if ev.fault && !(s.fd ev.fd).errorCb then s.unregister ev.fd else s
  if ev.fault = true ∨ ev.rdhup = true ∨ ev.events ≠ ∅ then
    { s with
      cur := s.cur ++ [⟨some ev.fd, ev.events⟩]
      owed := Function.update s.owed ev.fd (s.owed ev.fd ∪ ev.events) }
  else { s with cur := s.cur ++ [⟨none, ∅⟩] }

/-- An iteration of `uloop_run_events`: the callback that is called, if any. -/
def iter : EventLoop × Option (ℕ × Mask) :=
  match s.cur with
  | [] => (s, none)
  | ⟨none, _⟩ :: cur => ({ s with cur := cur }, none)
  | ⟨some x, events⟩ :: cur =>
    match s.stackEvent x fun f => { f with events := f.events ∪ events } with
    | some stack => ({ s with cur := cur, stack := stack }, none)
    | none =>
      ({ s with
        cur := cur
        stack := ⟨some x, ∅⟩ :: s.stack
        owed := Function.update s.owed x (s.owed x \ events) }, some (x, events))

/-- The innermost callback returns, and is called again for the events that were kept. -/
def ret : EventLoop × Option (ℕ × Mask) :=
  match s.stack with
  | [] => (s, none)
  | ⟨none, _⟩ :: stack => ({ s with stack := stack }, none)
  | ⟨some x, events⟩ :: stack =>
    if events = ∅ then ({ s with stack := stack }, none)
    else
      ({ s with
        stack := ⟨some x, ∅⟩ :: stack
        owed := Function.update s.owed x (s.owed x \ events) }, some (x, events))

end EventLoop

/-- What happens to the event loop. -/
inductive EventOp where
  /-- a descriptor is allocated, with zeros -/
  | create (x : ℕ)
  | add (x : ℕ) (events : Mask) (edge errorCb : Bool)
  | delete (x : ℕ)
  /-- a descriptor is deleted and its memory is freed -/
  | free (x : ℕ)
  | fetch (evs : List KernelEvent)
  | iter
  | ret

namespace EventLoop

variable (s : EventLoop)

/-- A step, and the callback that it calls with its events. -/
def step : EventOp → EventLoop × Option (ℕ × Mask)
  | .create x =>
    ({ s with fd := Function.update s.fd x {}, alive := Function.update s.alive x true }, none)
  | .add x events edge errorCb => (s.fdAdd x events edge errorCb, none)
  | .delete x => (s.fdDelete x, none)
  | .free x =>
    ({ s.fdDelete x with alive := Function.update (s.fdDelete x).alive x false }, none)
  | .fetch evs => (if s.cur = [] then evs.foldl fetchOne s else s, none)
  | .iter => s.iter
  | .ret => s.ret

/-- Memory is used between its allocation and its end, a registered descriptor stays
edge-triggered or level-triggered, and the kernel reports registered descriptors. -/
def Good : EventOp → Prop
  | .create x => s.alive x = false
  | .add x _ edge _ => s.alive x = true ∧ ((s.fd x).registered = true → edge = (s.fd x).edge)
  | .delete x | .free x => s.alive x = true
  | .fetch evs => ∀ ev ∈ evs, (s.fd ev.fd).registered = true
  | .iter | .ret => True

instance : DecidablePred s.Good
  | .create _ | .delete _ | .free _ => inferInstanceAs (Decidable (_ = _))
  | .add _ _ _ _ => inferInstanceAs (Decidable (_ ∧ (_ → _)))
  | .fetch evs => inferInstanceAs (Decidable (∀ ev ∈ evs, _))
  | .iter | .ret => .isTrue trivial

/-- The callback that a step calls is that of an allocated descriptor. -/
def CallsAlive (op : EventOp) : Prop := ∀ c ∈ (s.step op).2, s.alive c.1 = true

end EventLoop

/-! ### Frames -/

theorem ne_of_changeFrame_eq_none {x : ℕ} {change : FdStack → FdStack} {stack : List FdStack}
    (h : changeFrame x change stack = none) : ∀ f ∈ stack, f.fd ≠ some x := by
  induction stack with
  | nil => exact List.forall_mem_nil _
  | cons f stack ih =>
    rw [changeFrame] at h
    split_ifs at h with hf
    exact List.forall_mem_cons.mpr ⟨hf, ih (Option.map_eq_none_iff.mp h)⟩

/-- The frame that is changed is the innermost one of the descriptor. -/
theorem exists_of_changeFrame_eq_some {x : ℕ} {change : FdStack → FdStack}
    {stack stack' : List FdStack} (h : changeFrame x change stack = some stack') :
    ∃ inner f outer, stack = inner ++ f :: outer ∧ f.fd = some x ∧
      (∀ g ∈ inner, g.fd ≠ some x) ∧ stack' = inner ++ change f :: outer := by
  induction stack generalizing stack' with
  | nil => exact absurd h.symm (Option.some_ne_none stack')
  | cons f stack ih =>
    rw [changeFrame] at h
    split_ifs at h with hf
    · exact ⟨[], f, stack, rfl, hf, List.forall_mem_nil _, (Option.some.inj h).symm⟩
    · obtain ⟨stack₁, h₁, rfl⟩ := Option.map_eq_some_iff.mp h
      obtain ⟨inner, g, outer, rfl, hg, hinner, rfl⟩ := ih h₁
      exact ⟨f :: inner, g, outer, rfl, hg, List.forall_mem_cons.mpr ⟨hf, hinner⟩, rfl⟩

/-- Only the innermost frame of a descriptor keeps events. -/
def OnlyInnermost (stack : List FdStack) : Prop :=
  stack.Pairwise fun f g => ∀ x, f.fd = some x → g.fd = some x → g.events = ∅

section

variable {x : ℕ} {stack stack' : List FdStack}

theorem OnlyInnermost.change {inner outer : List FdStack} {f f' : FdStack}
    (h : OnlyInnermost (inner ++ f :: outer))
    (hinner : ∀ g ∈ inner, ∀ x, g.fd = some x → f'.fd = some x → f'.events = ∅)
    (houter : ∀ x, f'.fd = some x → f.fd = some x) : OnlyInnermost (inner ++ f' :: outer) := by
  rw [OnlyInnermost, List.pairwise_append, List.pairwise_cons] at h ⊢
  obtain ⟨hpairInner, ⟨hf, hpairOuter⟩, hcross⟩ := h
  refine ⟨hpairInner, ⟨fun g hg y hy => hf g hg y (houter y hy), hpairOuter⟩, fun g hg k hk => ?_⟩
  rcases List.mem_cons.mp hk with rfl | hk
  · exact hinner g hg
  · exact hcross g hg k (List.mem_cons_of_mem _ hk)

/-- When the innermost frame of a descriptor forgets it, the others keep nothing for it. -/
theorem OnlyInnermost.forget (h : OnlyInnermost stack)
    (hstack' : changeFrame x (fun f => { f with fd := none }) stack = some stack') :
    (∀ f ∈ stack', ∀ y, f.fd = some y → f ∈ stack ∧ (y = x → f.events = ∅)) ∧
      (∀ f ∈ stack, f.fd ≠ some x → f ∈ stack') ∧ OnlyInnermost stack' := by
  obtain ⟨inner, f, outer, rfl, hf, hinner, rfl⟩ := exists_of_changeFrame_eq_some hstack'
  refine ⟨fun g hg y hy => ?_, fun g hg hne => ?_, h.change (fun g _ y _ hy => ?_) fun y hy => ?_⟩
  · rw [List.mem_append, List.mem_cons] at hg ⊢
    rcases hg with hg | rfl | hg
    · exact ⟨Or.inl hg, fun heq => absurd (heq ▸ hy) (hinner g hg)⟩
    · exact absurd hy.symm (Option.some_ne_none y)
    · -- a frame behind the innermost one
      rw [OnlyInnermost, List.pairwise_append, List.pairwise_cons] at h
      refine ⟨Or.inr (Or.inr hg), ?_⟩
      rintro rfl
      exact h.2.1.1 g hg y hf hy
  · rw [List.mem_append, List.mem_cons] at hg ⊢
    rcases hg with hg | rfl | hg
    · exact Or.inl hg
    · exact absurd hf hne
    · exact Or.inr (Or.inr hg)
  · exact absurd hy.symm (Option.some_ne_none y)
  · exact absurd hy.symm (Option.some_ne_none y)

/-- When the innermost frame of a descriptor keeps more events, it has them and no frame loses
its own. -/
theorem OnlyInnermost.keep (h : OnlyInnermost stack) {events : Mask}
    (hstack' : changeFrame x (fun f => { f with events := f.events ∪ events }) stack =
      some stack') :
    (∀ g ∈ stack', g ∈ stack ∨ g.fd = some x) ∧
      (∀ g ∈ stack, ∃ g' ∈ stack', g'.fd = g.fd ∧ g.events ⊆ g'.events) ∧
      (∃ g ∈ stack', g.fd = some x ∧ events ⊆ g.events) ∧ OnlyInnermost stack' := by
  obtain ⟨inner, f, outer, rfl, hf, hinner, rfl⟩ := exists_of_changeFrame_eq_some hstack'
  have hmem : { f with events := f.events ∪ events } ∈
      inner ++ { f with events := f.events ∪ events } :: outer :=
    List.mem_append_right _ List.mem_cons_self
  refine ⟨fun g hg => ?_, fun g hg => ?_, ⟨_, hmem, hf, Finset.subset_union_right⟩,
    h.change (fun g hg y hgy hfy => ?_) fun _ hy => hy⟩
  · rw [List.mem_append, List.mem_cons] at hg ⊢
    rcases hg with hg | rfl | hg
    · exact Or.inl (Or.inl hg)
    · exact Or.inr hf
    · exact Or.inl (Or.inr (Or.inr hg))
  · rw [List.mem_append, List.mem_cons] at hg
    rcases hg with hg | rfl | hg
    · exact ⟨g, List.mem_append_left _ hg, rfl, subset_rfl⟩
    · exact ⟨_, hmem, rfl, Finset.subset_union_left⟩
    · exact ⟨g, List.mem_append_right _ (List.mem_cons_of_mem _ hg), rfl, subset_rfl⟩
  · exact absurd (hgy.trans (hfy.symm.trans hf)) (hinner g hg)

end

/-- The invariant of the event loop. -/
structure EventLoop.Ok (s : EventLoop) : Prop where
  alive : ∀ x, (s.fd x).registered = true → s.alive x = true
  edge : ∀ x, (s.fd x).edge = true → (s.fd x).registered = true
  cur : ∀ e ∈ s.cur, ∀ x, e.fd = some x → s.alive x = true
  frame : ∀ f ∈ s.stack, ∀ x, f.fd = some x → f.events ≠ ∅ → (s.fd x).edge = true
  innermost : OnlyInnermost s.stack
  owed : ∀ x, ∀ i ∈ s.owed x, (∃ e ∈ s.cur, e.fd = some x ∧ i ∈ e.events) ∨
    ∃ f ∈ s.stack, f.fd = some x ∧ i ∈ f.events

namespace EventLoop

variable {s : EventLoop}

theorem ok_start : EventLoop.Ok {} :=
  ⟨fun _ h => absurd h Bool.false_ne_true, fun _ h => absurd h Bool.false_ne_true,
    List.forall_mem_nil _, List.forall_mem_nil _, .nil,
    fun _ _ h => absurd h (Finset.notMem_empty _)⟩

/-- No frame of a descriptor keeps events when one is added for it. -/
theorem Ok.events_of_stackEvent (h : s.Ok) {x : ℕ} {change : FdStack → FdStack}
    (hnone : s.stackEvent x change = none) {f : FdStack} (hf : f ∈ s.stack) (hfx : f.fd = some x) :
    f.events = ∅ := by
  by_contra hne
  have hedge := h.frame f hf x hfx hne
  rw [stackEvent, if_pos hedge] at hnone
  exact ne_of_changeFrame_eq_none hnone f hf hfx

theorem changeFrame_of_stackEvent {x : ℕ} {change : FdStack → FdStack} {stack : List FdStack}
    (hstack : s.stackEvent x change = some stack) :
    (s.fd x).edge = true ∧ changeFrame x change s.stack = some stack := by
  rw [stackEvent] at hstack
  split_ifs at hstack with hedge
  exact ⟨hedge, hstack⟩

/-- The frames when a descriptor is deleted: those of the others stay, and its own keep nothing. -/
theorem Ok.stack_unregister (h : s.Ok) (x : ℕ) :
    (∀ f ∈ (s.unregister x).stack, ∀ y, f.fd = some y → f ∈ s.stack ∧ (y = x → f.events = ∅)) ∧
      (∀ f ∈ s.stack, f.fd ≠ some x → f ∈ (s.unregister x).stack) ∧
      OnlyInnermost (s.unregister x).stack := by
  have hsame : (∀ f ∈ s.stack, f.fd = some x → f.events = ∅) →
      (∀ f ∈ s.stack, ∀ y, f.fd = some y → f ∈ s.stack ∧ (y = x → f.events = ∅)) ∧
        (∀ f ∈ s.stack, f.fd ≠ some x → f ∈ s.stack) ∧ OnlyInnermost s.stack :=
    fun hempty => ⟨fun f hf y hy => ⟨hf, fun heq => hempty f hf (heq ▸ hy)⟩, fun f hf _ => hf,
      h.innermost⟩
  rw [unregister]
  dsimp only
  split_ifs with hreg
  · cases hstack : s.stackEvent x fun f => { f with fd := none } with
    | none => exact hsame fun f hf hfx => h.events_of_stackEvent hstack hf hfx
    | some stack => exact h.innermost.forget (changeFrame_of_stackEvent hstack).2
  · refine hsame fun f hf hfx => ?_
    by_contra hne
    exact hreg (h.edge x (h.frame f hf x hfx hne))

theorem fd_unregister_of_ne (s : EventLoop) {x y : ℕ} (hne : y ≠ x) :
    (s.unregister x).fd y = s.fd y := by
  rw [unregister]
  dsimp only
  split_ifs
  · rw [Function.update_of_ne hne]
  · rfl

theorem registered_unregister (s : EventLoop) (x : ℕ) :
    ((s.unregister x).fd x).registered = false := by
  rw [unregister]
  dsimp only
  split_ifs with hreg
  · rw [Function.update_self]
  · exact Bool.eq_false_of_not_eq_true hreg

theorem Ok.edge_unregister (h : s.Ok) (x : ℕ) : ((s.unregister x).fd x).edge = false := by
  rw [unregister]
  dsimp only
  split_ifs with hreg
  · rw [Function.update_self]
  · exact Bool.eq_false_of_not_eq_true (mt (h.edge x) hreg)

theorem Ok.unregister (h : s.Ok) (x : ℕ) : (s.unregister x).Ok := by
  obtain ⟨hold, hkeep, hinnermost⟩ := h.stack_unregister x
  have hedge := h.edge_unregister x
  have hreg := registered_unregister s x
  refine ⟨fun y hy => ?_, fun y hy => ?_, h.cur, fun f hf y hfy hne => ?_, hinnermost,
    fun y i hi => ?_⟩
  · rcases eq_or_ne y x with rfl | hne
    · exact absurd (hreg.symm.trans hy) Bool.false_ne_true
    · rw [fd_unregister_of_ne s hne] at hy
      exact h.alive y hy
  · rcases eq_or_ne y x with rfl | hne
    · exact absurd (hedge.symm.trans hy) Bool.false_ne_true
    · rw [fd_unregister_of_ne s hne] at hy ⊢
      exact h.edge y hy
  · obtain ⟨hmem, hempty⟩ := hold f hf y hfy
    have hyx : y ≠ x := mt hempty hne
    rw [fd_unregister_of_ne s hyx]
    exact h.frame f hmem y hfy hne
  · rw [EventLoop.unregister] at hi
    dsimp only at hi
    rcases eq_or_ne y x with rfl | hne
    · rw [Function.update_self] at hi
      exact absurd hi (Finset.notMem_empty i)
    · rw [Function.update_of_ne hne] at hi
      refine (h.owed y i hi).imp id ?_
      rintro ⟨f, hf, hfy, hif⟩
      exact ⟨f, hkeep f hf (by rw [hfy]; exact fun heq => hne (Option.some.inj heq)), hfy, hif⟩

/-- The two parts of `uloop_fd_delete` can be exchanged. -/
theorem fdDelete_eq (s : EventLoop) (x : ℕ) : s.fdDelete x = (s.unregister x).clearCur x := rfl

theorem fd_ne_of_mem_cur_fdDelete {x : ℕ} {e : FdEvent} (he : e ∈ (s.fdDelete x).cur) :
    e.fd ≠ some x := by
  obtain ⟨e', -, rfl⟩ := List.mem_map.mp he
  split_ifs with hx
  · exact (Option.some_ne_none x).symm
  · exact hx

theorem Ok.fdDelete (h : s.Ok) (x : ℕ) : (s.fdDelete x).Ok := by
  have hok := h.unregister x
  have howed : (s.unregister x).owed x = ∅ := Function.update_self _ _ _
  rw [fdDelete_eq]
  refine ⟨hok.alive, hok.edge, fun e he y hey => ?_, hok.frame, hok.innermost, fun y i hi => ?_⟩
  · obtain ⟨e', he', rfl⟩ := List.mem_map.mp he
    split_ifs at hey with hx
    exact hok.cur e' he' y hey
  · have hne : y ≠ x := by
      rintro rfl
      exact absurd (howed ▸ hi) (Finset.notMem_empty i)
    refine (hok.owed y i hi).imp ?_ id
    rintro ⟨e, he, hey, hie⟩
    refine ⟨e, List.mem_map.mpr ⟨e, he, if_neg ?_⟩, hey, hie⟩
    rw [hey]
    exact fun heq => hne (Option.some.inj heq)

theorem Ok.fdAdd (h : s.Ok) {x : ℕ} {events : Mask} {edge errorCb : Bool}
    (halive : s.alive x = true) (hedge : (s.fd x).registered = true → edge = (s.fd x).edge) :
    (s.fdAdd x events edge errorCb).Ok := by
  rw [EventLoop.fdAdd]
  split_ifs with hevents
  · exact h.fdDelete x
  · refine ⟨fun y hy => ?_, fun y hy => ?_, h.cur, fun f hf y hfy hne => ?_, h.innermost, h.owed⟩
    · dsimp only at hy ⊢
      rw [Function.update_apply] at hy
      split_ifs at hy with heq
      · exact heq ▸ halive
      · exact h.alive y hy
    · dsimp only at hy ⊢
      rw [Function.update_apply] at hy ⊢
      split_ifs with heq
      · rfl
      · rw [if_neg heq] at hy
        exact h.edge y hy
    · have hfd := h.frame f hf y hfy hne
      dsimp only
      rw [Function.update_apply]
      split_ifs with heq
      · subst heq
        exact (hedge (h.edge y hfd)).trans hfd
      · exact hfd

theorem Ok.create (h : s.Ok) {x : ℕ} (hx : s.alive x = false) : (s.step (.create x)).1.Ok := by
  have hreg : (s.fd x).registered ≠ true := fun hreg =>
    Bool.false_ne_true (hx.symm.trans (h.alive x hreg))
  have hother : ∀ y, (Function.update s.fd x {} y).registered = true ∨
      (Function.update s.fd x {} y).edge = true → y ≠ x := by
    rintro y hy rfl
    rw [Function.update_self] at hy
    exact hy.elim Bool.false_ne_true Bool.false_ne_true
  have halive : ∀ y, s.alive y = true → Function.update s.alive x true y = true := by
    intro y hy
    rw [Function.update_apply, hy, ite_self]
  refine ⟨fun y hy => ?_, fun y hy => ?_, fun e he y hey => halive y (h.cur e he y hey),
    fun f hf y hfy hne => ?_, h.innermost, h.owed⟩
  · have hne := hother y (Or.inl hy)
    dsimp only [step] at hy
    rw [Function.update_of_ne hne] at hy
    exact halive y (h.alive y hy)
  · have hne := hother y (Or.inr hy)
    dsimp only [step] at hy ⊢
    rw [Function.update_of_ne hne] at hy ⊢
    exact h.edge y hy
  · have hedge := h.frame f hf y hfy hne
    have hyx : y ≠ x := by
      rintro rfl
      exact hreg (h.edge y hedge)
    dsimp only [step]
    rw [Function.update_of_ne hyx]
    exact hedge

theorem Ok.free (h : s.Ok) (x : ℕ) : (s.step (.free x)).1.Ok := by
  have hok := h.fdDelete x
  have hreg : ((s.fdDelete x).fd x).registered = false := registered_unregister _ x
  refine ⟨fun y hy => ?_, hok.edge, fun e he y hey => ?_, hok.frame, hok.innermost, hok.owed⟩
  · have hne : y ≠ x := by
      rintro rfl
      exact Bool.false_ne_true (hreg.symm.trans hy)
    dsimp only [step]
    rw [Function.update_of_ne hne]
    exact hok.alive y hy
  · have hne : y ≠ x := by
      rintro rfl
      exact fd_ne_of_mem_cur_fdDelete he hey
    dsimp only [step]
    rw [Function.update_of_ne hne]
    exact hok.cur e he y hey

theorem exists_mem_append {α : Type*} {P : α → Prop} {l : List α} (h : ∃ a ∈ l, P a)
    (l' : List α) : ∃ a ∈ l ++ l', P a := by
  obtain ⟨a, ha, hP⟩ := h
  exact ⟨a, List.mem_append_left _ ha, hP⟩

theorem alive_fetchOne (s : EventLoop) (ev : KernelEvent) : (s.fetchOne ev).alive = s.alive := by
  rw [fetchOne]
  split_ifs <;> rfl

/-- An event that is put behind the others is owed to its descriptor. -/
theorem Ok.push (h : s.Ok) {x : ℕ} (hx : s.alive x = true) (events : Mask) :
    EventLoop.Ok { s with
      cur := s.cur ++ [⟨some x, events⟩]
      owed := Function.update s.owed x (s.owed x ∪ events) } := by
  refine ⟨h.alive, h.edge, fun e he y hey => ?_, h.frame, h.innermost, fun y i hi => ?_⟩
  · rw [List.mem_append, List.mem_singleton] at he
    rcases he with he | rfl
    · exact h.cur e he y hey
    · exact Option.some.inj hey ▸ hx
  · have hold : i ∈ s.owed y → (∃ e ∈ s.cur ++ [⟨some x, events⟩], e.fd = some y ∧
        i ∈ e.events) ∨ ∃ f ∈ s.stack, f.fd = some y ∧ i ∈ f.events := fun hi =>
      (h.owed y i hi).imp (exists_mem_append · _) id
    dsimp only at hi
    rw [Function.update_apply] at hi
    split_ifs at hi with heq
    · rw [Finset.mem_union] at hi
      rcases hi with hi | hi
      · exact hold (heq ▸ hi)
      · exact Or.inl ⟨_, List.mem_append_right _ (List.mem_singleton_self _),
          congrArg some heq.symm, hi⟩
    · exact hold hi

theorem Ok.pushNone (h : s.Ok) : EventLoop.Ok { s with cur := s.cur ++ [⟨none, ∅⟩] } := by
  refine ⟨h.alive, h.edge, fun e he y hey => ?_, h.frame, h.innermost, fun y i hi =>
    (h.owed y i hi).imp (exists_mem_append · _) id⟩
  rw [List.mem_append, List.mem_singleton] at he
  rcases he with he | rfl
  · exact h.cur e he y hey
  · exact absurd hey.symm (Option.some_ne_none y)

theorem Ok.fetchOne (h : s.Ok) {ev : KernelEvent} (hev : s.alive ev.fd = true) :
    (s.fetchOne ev).Ok := by
  rw [EventLoop.fetchOne]
  split_ifs
  · exact (h.unregister ev.fd).push hev ev.events
  · exact h.push hev ev.events
  · exact (h.unregister ev.fd).pushNone
  · exact h.pushNone

theorem Ok.fetch (h : s.Ok) {evs : List KernelEvent}
    (hevs : ∀ ev ∈ evs, s.alive ev.fd = true) : (evs.foldl EventLoop.fetchOne s).Ok := by
  induction evs generalizing s with
  | nil => exact h
  | cons ev evs ih =>
    rw [List.forall_mem_cons] at hevs
    refine ih (h.fetchOne hevs.1) ?_
    rw [alive_fetchOne]
    exact hevs.2

/-- An event is kept on the frame of its descriptor. -/
theorem Ok.buffer (h : s.Ok) {x : ℕ} {events : Mask} {cur : List FdEvent}
    (hcur : s.cur = ⟨some x, events⟩ :: cur) {stack : List FdStack}
    (hstack : s.stackEvent x (fun f => { f with events := f.events ∪ events }) = some stack) :
    EventLoop.Ok { s with cur := cur, stack := stack } := by
  obtain ⟨hedge, hframes⟩ := changeFrame_of_stackEvent hstack
  obtain ⟨hmem, hold, ⟨f, hf, hfx, hsub⟩, hinnermost⟩ := h.innermost.keep hframes
  refine ⟨h.alive, h.edge, fun e he => h.cur e (hcur ▸ List.mem_cons_of_mem _ he),
    fun g hg y hgy hne => ?_, hinnermost, fun y i hi => ?_⟩
  · rcases hmem g hg with hg | hgx
    · exact h.frame g hg y hgy hne
    · exact Option.some.inj (hgx.symm.trans hgy) ▸ hedge
  · rcases h.owed y i hi with ⟨e, he, hey, hie⟩ | ⟨g, hg, hgy, hig⟩
    · rw [hcur] at he
      rcases List.mem_cons.mp he with rfl | he
      · exact Or.inr ⟨f, hf, hfx.trans hey, hsub hie⟩
      · exact Or.inl ⟨e, he, hey, hie⟩
    · obtain ⟨g', hg', hfd, hevents⟩ := hold g hg
      exact Or.inr ⟨g', hg', hfd.trans hgy, hevents hig⟩

/-- A callback is called, and what is passed to it is no longer owed. -/
theorem Ok.call (h : s.Ok) {x : ℕ} {events : Mask} {cur : List FdEvent} {stack : List FdStack}
    (hcur : ∀ e ∈ s.cur, e ∈ cur ∨ e = ⟨some x, events⟩) (hsub : ∀ e ∈ cur, e ∈ s.cur)
    (hstack : ∀ f ∈ s.stack, f ∈ stack ∨ f = ⟨some x, events⟩) (hsubStack : stack.Sublist s.stack)
    (hempty : ∀ f ∈ stack, f.fd = some x → f.events = ∅) :
    EventLoop.Ok { s with
      cur := cur
      stack := ⟨some x, ∅⟩ :: stack
      owed := Function.update s.owed x (s.owed x \ events) } := by
  refine ⟨h.alive, h.edge, fun e he => h.cur e (hsub e he), fun f hf y hfy hne => ?_, ?_,
    fun y i hi => ?_⟩
  · rcases List.mem_cons.mp hf with rfl | hf
    · exact absurd rfl hne
    · exact h.frame f (hsubStack.subset hf) y hfy hne
  · refine List.pairwise_cons.mpr ⟨fun g hg y hy hgy => ?_, h.innermost.sublist hsubStack⟩
    exact hempty g hg (hgy.trans hy.symm)
  · dsimp only at hi
    have hold : i ∈ s.owed y ∧ (y = x → i ∉ events) := by
      rw [Function.update_apply] at hi
      split_ifs at hi with heq
      · rw [Finset.mem_sdiff] at hi
        exact ⟨heq ▸ hi.1, fun _ => hi.2⟩
      · exact ⟨hi, fun hyx => absurd hyx heq⟩
    rcases h.owed y i hold.1 with ⟨e, he, hey, hie⟩ | ⟨f, hf, hfy, hif⟩
    · rcases hcur e he with he | rfl
      · exact Or.inl ⟨e, he, hey, hie⟩
      · exact absurd hie (hold.2 (Option.some.inj hey).symm)
    · rcases hstack f hf with hf | rfl
      · exact Or.inr ⟨f, List.mem_cons_of_mem _ hf, hfy, hif⟩
      · exact absurd hif (hold.2 (Option.some.inj hfy).symm)

theorem forall_mem_none {α : Type*} {P : α → Prop} : ∀ a ∈ (none : Option α), P a :=
  fun a ha => absurd ha.symm (Option.some_ne_none a)

theorem Ok.iter (h : s.Ok) : s.CallsAlive .iter ∧ (s.step .iter).1.Ok := by
  rw [CallsAlive, step, EventLoop.iter]
  match hcur : s.cur with
  | [] => exact ⟨forall_mem_none, h⟩
  | ⟨none, events⟩ :: cur =>
    refine ⟨forall_mem_none, h.alive, h.edge,
      fun e he => h.cur e (hcur ▸ List.mem_cons_of_mem _ he), h.frame, h.innermost,
      fun y i hi => (h.owed y i hi).imp ?_ id⟩
    rintro ⟨e, he, hey, hie⟩
    rw [hcur] at he
    rcases List.mem_cons.mp he with rfl | he
    · exact absurd hey (Option.some_ne_none y).symm
    · exact ⟨e, he, hey, hie⟩
  | ⟨some x, events⟩ :: cur =>
    have hmem : (⟨some x, events⟩ : FdEvent) ∈ s.cur := hcur ▸ List.mem_cons_self
    cases hstack : s.stackEvent x fun f => { f with events := f.events ∪ events } with
    | some stack =>
      dsimp only
      rw [hstack]
      exact ⟨forall_mem_none, h.buffer hcur hstack⟩
    | none =>
      dsimp only
      rw [hstack]
      refine ⟨fun c hc => ?_, h.call (fun e he => ?_) (fun e he => ?_) (fun f hf => Or.inl hf)
        (List.Sublist.refl _) fun f hf hfx => h.events_of_stackEvent hstack hf hfx⟩
      · obtain rfl := Option.some.inj hc
        exact h.cur _ hmem x rfl
      · rw [hcur] at he
        exact (List.mem_cons.mp he).symm
      · rw [hcur]
        exact List.mem_cons_of_mem _ he

theorem Ok.pop (h : s.Ok) {f : FdStack} {stack : List FdStack} (hstack : s.stack = f :: stack)
    (hf : ∀ x, f.fd = some x → f.events = ∅) : EventLoop.Ok { s with stack := stack } := by
  have hsub : stack.Sublist s.stack := hstack ▸ List.sublist_cons_self f stack
  refine ⟨h.alive, h.edge, h.cur, fun g hg => h.frame g (hsub.subset hg),
    h.innermost.sublist hsub, fun y i hi => (h.owed y i hi).imp id ?_⟩
  rintro ⟨g, hg, hgy, hig⟩
  rw [hstack] at hg
  rcases List.mem_cons.mp hg with rfl | hg
  · rw [hf y hgy] at hig
    exact absurd hig (Finset.notMem_empty i)
  · exact ⟨g, hg, hgy, hig⟩

theorem Ok.ret (h : s.Ok) : s.CallsAlive .ret ∧ (s.step .ret).1.Ok := by
  rw [CallsAlive, step, EventLoop.ret]
  match hstack : s.stack with
  | [] => exact ⟨forall_mem_none, h⟩
  | ⟨none, events⟩ :: stack =>
    exact ⟨forall_mem_none,
      h.pop hstack fun x hx => absurd hx (Option.some_ne_none x).symm⟩
  | ⟨some x, events⟩ :: stack =>
    dsimp only
    split_ifs with hevents
    · exact ⟨forall_mem_none, h.pop hstack fun _ _ => hevents⟩
    · have hmem : (⟨some x, events⟩ : FdStack) ∈ s.stack := hstack ▸ List.mem_cons_self
      have hpair := h.innermost
      rw [OnlyInnermost, hstack, List.pairwise_cons] at hpair
      refine ⟨fun c hc => ?_, h.call (fun e he => Or.inl he) (fun e he => he) (fun f hf => ?_)
        (hstack ▸ List.sublist_cons_self _ stack) fun f hf hfx => hpair.1 f hf x rfl hfx⟩
      · obtain rfl := Option.some.inj hc
        exact h.alive x (h.edge x (h.frame _ hmem x rfl hevents))
      · rw [hstack] at hf
        exact (List.mem_cons.mp hf).symm

/-- A good step keeps the invariant, and calls nothing that has been freed. -/
theorem Ok.step (h : s.Ok) {op : EventOp} (hop : s.Good op) :
    s.CallsAlive op ∧ (s.step op).1.Ok := by
  cases op with
  | create x => exact ⟨forall_mem_none, h.create hop⟩
  | add x events edge errorCb => exact ⟨forall_mem_none, h.fdAdd hop.1 hop.2⟩
  | delete x => exact ⟨forall_mem_none, h.fdDelete x⟩
  | free x => exact ⟨forall_mem_none, h.free x⟩
  | fetch evs =>
    refine ⟨forall_mem_none, ?_⟩
    rw [EventLoop.step]
    split_ifs
    · exact h.fetch fun ev hev => h.alive ev.fd (hop ev hev)
    · exact h
  | iter => exact h.iter
  | ret => exact h.ret

/-- **No callback of a freed descriptor is called**, in whatever order and however deep callbacks
add, delete and free descriptors and run the event loop. -/
theorem alive_of_eventRun {ops : List EventOp} (hgood : Always EventLoop.step Good {} ops) :
    Always EventLoop.step CallsAlive {} ops :=
  (always_of_invariant (fun _ _ hs hop => hs.step hop) ok_start hgood).1

/-- A callback frees another descriptor whose event has been fetched as well, and runs the loop,
which fetches an event of its own descriptor. -/
def nestedOps : List EventOp :=
  [.create 1, .add 1 {.read} true true, .create 2, .add 2 {.read, .write} true true,
    .fetch [⟨1, false, false, {.read}⟩, ⟨2, true, true, {.read}⟩], .iter, .free 2, .iter,
    .fetch [⟨1, false, false, {.read}⟩], .iter, .ret, .ret]

theorem alive_of_eventRun_nested : Always EventLoop.step CallsAlive {} nestedOps :=
  alive_of_eventRun (by decide)

/-- **No event is lost**: when no event is left and no callback runs, each descriptor has been
passed all events that were fetched for it since it was deleted for the last time. -/
theorem delivered_of_eventRun {ops : List EventOp} (hgood : Always EventLoop.step Good {} ops)
    (hcur : (behind EventLoop.step {} ops).cur = [])
    (hstack : (behind EventLoop.step {} ops).stack = []) (x : ℕ) :
    (behind EventLoop.step {} ops).owed x = ∅ := by
  have hok : (behind EventLoop.step {} ops).Ok :=
    (always_of_invariant (fun _ _ hs hop => hs.step hop) ok_start hgood).2
  refine Finset.eq_empty_of_forall_notMem fun i hi => ?_
  rcases hok.owed x i hi with ⟨e, he, -⟩ | ⟨f, hf, -⟩
  · rw [hcur] at he
    exact List.not_mem_nil he
  · rw [hstack] at hf
    exact List.not_mem_nil hf

theorem delivered_of_eventRun_nested : (behind EventLoop.step {} nestedOps).owed 1 = ∅ :=
  delivered_of_eventRun (by decide) (by decide) (by decide) 1

end EventLoop

end M57Card.Libubox
