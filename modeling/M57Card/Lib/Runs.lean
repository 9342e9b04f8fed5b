import Mathlib.Data.List.Induction
import Mathlib.Logic.Basic

/-!
# Runs of a system under inputs

A system takes inputs one after the other: `effect l s` is the state after the input `l` in the
state `s`, `live s` says that the system still takes inputs, and `ok s l` restricts the inputs that
a run may have in a state. A run is indexed by the list of its inputs, so that statements can speak
of the history of a state.

## Main definitions

* `LabelRun effect live ok s₀ ls s` : the inputs `ls` lead from `s₀` to `s`.

## Main results

* `LabelRun.invariant` : a property of history and state that every input preserves holds along
  every run.
* `LabelRun.live_start` : a run that ends in a live state starts in one.
* `invariant_of_foldlM` : a property that every step keeps, when steps may have no result.
* `forall_states_of` : what holds in every state of a run, when the steps that meet a condition keep
  it.
* `forall_steps_of` : what every step of a run does, when a condition on the steps is enough for it
  under an invariant that it keeps.
* `forall_steps_iff` : what every step of a run does, when a condition on the steps decides it and
  keeps the invariant under which it decides it.
* `forall_states_iff_of`, `forall_states_iff` : what holds in every state of a run, when a condition
  on the steps decides whether a step keeps it.
* `forall_step_cons` : the steps of a run are its first one and those behind it.
-/

namespace M57Card

variable {S L : Type*}

/-- The inputs `ls` lead from `s₀` to `s`, each taken in a live state where `ok` allows it. -/
inductive LabelRun (effect : L → S → S) (live : S → Prop) (ok : S → L → Prop) (s₀ : S) :
    List L → S → Prop where
  | nil : LabelRun effect live ok s₀ [] s₀
  | snoc {ls : List L} {s : S} {l : L} (hrun : LabelRun effect live ok s₀ ls s) (hlive : live s)
      (hok : ok s l) : LabelRun effect live ok s₀ (ls ++ [l]) (effect l s)

/-- A property of history and state that every input preserves holds along every run. -/
theorem LabelRun.invariant {effect : L → S → S} {live : S → Prop} {ok : S → L → Prop} {s₀ s : S}
    {ls : List L} (P : List L → S → Prop) (hinit : P [] s₀)
    (hstep : ∀ ls s l, LabelRun effect live ok s₀ ls s → live s → ok s l → P ls s →
      P (ls ++ [l]) (effect l s))
    (hrun : LabelRun effect live ok s₀ ls s) : P ls s := by
  induction hrun with
  | nil => exact hinit
  | snoc hrun hlive hok ih => exact hstep _ _ _ hrun hlive hok ih

/-- A run that ends in a live state starts in one. -/
theorem LabelRun.live_start {effect : L → S → S} {live : S → Prop} {ok : S → L → Prop} {s₀ s : S}
    {ls : List L} (hrun : LabelRun effect live ok s₀ ls s) (hlive : live s) : live s₀ :=
  LabelRun.invariant (fun _ s => live s → live s₀) id (fun _ _ _ _ hs _ ih _ => ih hs) hrun hlive

/-- A property that every step meeting a condition `C` keeps holds behind every run of such steps
that all have a result. -/
theorem invariant_of_foldlM {step : S → L → Option S} {P : S → Prop} {C : L → Prop}
    (hstep : ∀ s l s', P s → C l → step s l = some s' → P s') {ls : List L} (hall : ∀ l ∈ ls, C l)
    {s s' : S} (hs : P s) (hrun : ls.foldlM step s = some s') : P s' := by
  induction ls generalizing s with
  | nil =>
    obtain rfl := Option.some.inj hrun
    exact hs
  | cons l ls ih =>
    obtain ⟨hl, hls⟩ := List.forall_mem_cons.mp hall
    rw [List.foldlM_cons] at hrun
    obtain ⟨s₁, hs₁, hrun⟩ := Option.bind_eq_some_iff.mp hrun
    exact ih hls (hstep s l s₁ hs hl hs₁) hrun

/-- The steps of a run are its first one and those behind it. -/
theorem forall_step_cons {l : L} {ls : List L} {P : List L → L → Prop} :
    (∀ pre x, pre ++ [x] <+: l :: ls → P pre x) ↔
      P [] l ∧ ∀ pre x, pre ++ [x] <+: ls → P (l :: pre) x := by
  refine ⟨fun h => ⟨h [] l ?_, fun pre x hpre => h (l :: pre) x ?_⟩, fun h pre x hpre => ?_⟩
  · exact List.cons_prefix_cons.mpr ⟨rfl, List.nil_prefix⟩
  · exact List.cons_prefix_cons.mpr ⟨rfl, hpre⟩
  · cases pre with
    | nil =>
      obtain ⟨rfl, -⟩ := List.cons_prefix_cons.mp hpre
      exact h.1
    | cons y pre =>
      obtain ⟨rfl, hrest⟩ := List.cons_prefix_cons.mp hpre
      exact h.2 pre x hrest

theorem forall_step_nil {P : List L → L → Prop} : ∀ pre x, pre ++ [x] <+: [] → P pre x :=
  fun _ _ hpre => absurd (List.prefix_nil.mp hpre) (List.concat_ne_nil _ _)

/-- Every state of a run has a property that the steps meeting a condition `C` keep, when all steps
meet it. -/
theorem forall_states_of {step : S → L → S} {s₀ : S} {P : S → Prop} {C : S → L → Prop}
    (hstart : P s₀) (hkeep : ∀ s l, P s → C s l → P (step s l)) {ls : List L}
    (hall : ∀ pre l, pre ++ [l] <+: ls → C (pre.foldl step s₀) l) (pre : List L)
    (hpre : pre <+: ls) : P (pre.foldl step s₀) := by
  induction pre using List.reverseRecOn with
  | nil => exact hstart
  | append_singleton pre l ih =>
    rw [List.foldl_append]
    exact hkeep _ l (ih ((List.prefix_append _ _).trans hpre)) (hall pre l hpre)

/-- The steps of a run all have the property `Q` when they all meet a condition `C` that is enough
for it under an invariant `P`, which the steps meeting `C` keep. -/
theorem forall_steps_of {step : S → L → S} {s₀ : S} {P : S → Prop} {Q C : S → L → Prop}
    (hstart : P s₀) (hkeep : ∀ s l, P s → C s l → P (step s l))
    (hof : ∀ s l, P s → C s l → Q s l) {ls : List L}
    (hall : ∀ pre l, pre ++ [l] <+: ls → C (pre.foldl step s₀) l) (pre : List L) (l : L)
    (hpre : pre ++ [l] <+: ls) : Q (pre.foldl step s₀) l := by
  have hinv : P (pre.foldl step s₀) :=
    forall_states_of hstart hkeep hall pre ((List.prefix_append _ _).trans hpre)
  exact hof _ l hinv (hall pre l hpre)

/-- The steps of a run all have the property `Q` exactly when they all meet the condition `C`, when
`C` decides `Q` under an invariant that the steps meeting `C` keep. -/
theorem forall_steps_iff {step : S → L → S} {s₀ : S} {P : S → Prop} {Q C : S → L → Prop}
    (hstart : P s₀) (hkeep : ∀ s l, P s → C s l → P (step s l))
    (hdecide : ∀ s l, P s → (Q s l ↔ C s l)) (ls : List L) :
    (∀ pre l, pre ++ [l] <+: ls → Q (pre.foldl step s₀) l) ↔
      ∀ pre l, pre ++ [l] <+: ls → C (pre.foldl step s₀) l := by
  constructor
  · exact forall_steps_of hstart (fun s l hs hQ => hkeep s l hs ((hdecide s l hs).mp hQ))
      fun s l hs => (hdecide s l hs).mp
  · exact forall_steps_of hstart hkeep fun s l hs => (hdecide s l hs).mpr

/-- Every state of a run has the property `R` exactly when the steps all meet the condition `C`,
when an invariant `P` that the steps meeting `C` keep is enough for `R`, and `C` decides under it
whether `R` holds behind a step. -/
theorem forall_states_iff_of {step : S → L → S} {s₀ : S} {P R : S → Prop} {C : S → L → Prop}
    (hstart : P s₀) (hof : ∀ s, P s → R s) (hkeep : ∀ s l, P s → C s l → P (step s l))
    (hdecide : ∀ s l, P s → (R (step s l) ↔ C s l)) (ls : List L) :
    (∀ pre, pre <+: ls → R (pre.foldl step s₀)) ↔
      ∀ pre l, pre ++ [l] <+: ls → C (pre.foldl step s₀) l := by
  refine Iff.trans ⟨fun hall pre l hpre => ?_, fun hall pre hpre => ?_⟩
    (forall_steps_iff (Q := fun s l => R (step s l)) hstart hkeep hdecide ls)
  · have hafter := hall _ hpre
    rwa [List.foldl_append] at hafter
  · -- every state but the first is that after a step
    cases pre using List.reverseRecOn with
    | nil => exact hof _ hstart
    | append_singleton pre l =>
      rw [List.foldl_append]
      exact hall pre l hpre

/-- Every state of a run has the property `P` exactly when the steps all meet the condition `C`,
when `C` decides whether a step keeps `P`, under an invariant `W` of all runs. -/
theorem forall_states_iff {step : S → L → S} {s₀ : S} {W P : S → Prop} {C : S → L → Prop}
    (hstart : W s₀ ∧ P s₀) (hkeep : ∀ s l, W s → W (step s l))
    (hdecide : ∀ s l, W s → P s → (P (step s l) ↔ C s l)) (ls : List L) :
    (∀ pre, pre <+: ls → P (pre.foldl step s₀)) ↔
      ∀ pre l, pre ++ [l] <+: ls → C (pre.foldl step s₀) l :=
  forall_states_iff_of (P := fun s => W s ∧ P s) hstart (fun _ hs => hs.2)
    (fun s l hs hC => ⟨hkeep s l hs.1, (hdecide s l hs.1 hs.2).mpr hC⟩)
    (fun s l hs => hdecide s l hs.1 hs.2) ls

end M57Card
