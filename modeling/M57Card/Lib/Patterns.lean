import Mathlib.Data.List.Forall2
import Mathlib.Data.List.Basic
import Mathlib.Data.Option.Basic

/-!
# Patterns of words with holes

A pattern is a list of words, some of which are holes. A text of words fits when it has the words of
the pattern, and at each hole a word that the hole accepts. A program that walks both lists, skips
equal words and takes down the word at each hole it passes differs from that at one place: a word
that spells the hole itself is skipped, and nothing is taken.

Two patterns clash when they differ at a word before the first hole of either. No text passes both,
and a text that passes one leaves the other before its first hole.

## Main definitions

* `Fits`, `Admits` : what the pattern says and what the walk asks of a word.
* `passes`, `taken` : the result of a walk and the words it takes.
* `clash` : the patterns differ before their holes.

## Main results

* `passes_iff` : the walk passes where every word is admitted.
* `mem_taken_iff` : a word is taken at the holes that the walk reaches.
* `taken_of_passes` : a walk that skips no hole takes the word of every hole.
* `not_passes_of_clash`, `taken_of_clash`.
-/

namespace M57Card.Patterns

variable {α : Type*} [DecidableEq α] (hole : α → Bool) (accepts : α → α → Bool)

/-- A word fits a word of the pattern. -/
def Fits (p w : α) : Prop :=
  if hole p then accepts p w = true else w = p

/-- The walk goes on: the words are equal, or a hole accepts the word. -/
def Admits (p w : α) : Prop :=
  w = p ∨ hole p = true ∧ accepts p w = true

/-- The walk meets no word that it does not admit. -/
def passes : List α → List α → Bool
  | p :: ps, w :: ws =>
    if w = p then passes ps ws
    else if hole p && accepts p w then passes ps ws else false
  | _, _ => true

/-- The words that the walk takes, each with its hole. -/
def taken : List α → List α → List (α × α)
  | p :: ps, w :: ws =>
    if w = p then taken ps ws
    else if hole p && accepts p w then (p, w) :: taken ps ws else []
  | _, _ => []

/-- The patterns differ at a word before the first hole of either. -/
def clash : List α → List α → Bool
  | p :: ps, q :: qs => !hole p && !hole q && (p != q || clash ps qs)
  | _, _ => false

variable {hole accepts} {p q w : α} {ps qs ws : List α}

/-! ### Words -/

omit [DecidableEq α] in
theorem admits_of_not_hole (hp : hole p = false) : Admits hole accepts p w ↔ w = p := by
  rw [Admits, hp]
  exact or_iff_left fun h => Bool.false_ne_true h.1

omit [DecidableEq α] in
theorem Fits.admits (h : Fits hole accepts p w) : Admits hole accepts p w := by
  unfold Fits at h
  split_ifs at h with hp
  · exact Or.inr ⟨hp, h⟩
  · exact Or.inl h

omit [DecidableEq α] in
/-- A word that does not spell the hole itself is admitted only where it fits. -/
theorem Admits.fits (h : Admits hole accepts p w) (hne : hole p = true → w ≠ p) :
    Fits hole accepts p w := by
  unfold Fits
  split_ifs with hp
  · exact h.elim (fun heq => absurd heq (hne hp)) fun hacc => hacc.2
  · exact (admits_of_not_hole (Bool.not_eq_true _ ▸ hp)).mp h

/-! ### The walk -/

theorem passes_cons :
    passes hole accepts (p :: ps) (w :: ws) = true ↔
      Admits hole accepts p w ∧ passes hole accepts ps ws = true := by
  rw [passes, Admits]
  split_ifs with heq hacc
  · simp only [heq, true_or, true_and]
  · rw [Bool.and_eq_true] at hacc
    simp only [hacc, and_self, or_true, true_and]
  · rw [Bool.and_eq_true] at hacc
    simp only [heq, hacc, or_self, false_and]

theorem passes_iff (hlen : ps.length = ws.length) :
    passes hole accepts ps ws = true ↔ List.Forall₂ (Admits hole accepts) ps ws := by
  induction ps generalizing ws with
  | nil =>
    obtain rfl := List.length_eq_zero_iff.mp hlen.symm
    exact iff_of_true rfl List.Forall₂.nil
  | cons p ps ih =>
    cases ws with
    | nil => simp at hlen
    | cons w ws =>
      rw [passes_cons, List.forall₂_cons, ih (Nat.succ.inj hlen)]

theorem mem_taken_iff {x : α × α} :
    x ∈ taken hole accepts ps ws ↔
      ∃ n, ps[n]? = some x.1 ∧ ws[n]? = some x.2 ∧ hole x.1 = true ∧ accepts x.1 x.2 = true ∧
        x.2 ≠ x.1 ∧ List.Forall₂ (Admits hole accepts) (ps.take n) (ws.take n) := by
  induction ps generalizing ws with
  | nil => simp [taken]
  | cons p ps ih =>
    cases ws with
    | nil => simp [taken]
    | cons w ws =>
      -- The word at the front is the one, or the walk goes on past it.
      have hsplit : (∃ n, (p :: ps)[n]? = some x.1 ∧ (w :: ws)[n]? = some x.2 ∧ hole x.1 = true ∧
          accepts x.1 x.2 = true ∧ x.2 ≠ x.1 ∧
          List.Forall₂ (Admits hole accepts) ((p :: ps).take n) ((w :: ws).take n)) ↔
          ((p, w) = x ∧ hole p = true ∧ accepts p w = true ∧ w ≠ p) ∨
            (Admits hole accepts p w ∧ x ∈ taken hole accepts ps ws) := by
        rw [ih]
        constructor
        · rintro ⟨n, hp, hw, hhole, hacc, hne, hpre⟩
          cases n with
          | zero =>
            obtain rfl := Option.some.inj hp
            obtain rfl := Option.some.inj hw
            exact Or.inl ⟨rfl, hhole, hacc, hne⟩
          | succ n =>
            rw [List.take_succ_cons, List.take_succ_cons, List.forall₂_cons] at hpre
            exact Or.inr ⟨hpre.1, n, hp, hw, hhole, hacc, hne, hpre.2⟩
        · rintro (⟨rfl, hhole, hacc, hne⟩ | ⟨hadm, n, hp, hw, hhole, hacc, hne, hpre⟩)
          · exact ⟨0, rfl, rfl, hhole, hacc, hne, List.Forall₂.nil⟩
          · exact ⟨n + 1, hp, hw, hhole, hacc, hne, List.Forall₂.cons hadm hpre⟩
      rw [hsplit, taken]
      split_ifs with heq hacc
      · exact ⟨fun h => Or.inr ⟨Or.inl heq, h⟩,
          fun h => h.elim (fun h => absurd heq h.2.2.2) fun h => h.2⟩
      · rw [Bool.and_eq_true] at hacc
        rw [List.mem_cons]
        constructor
        · rintro (rfl | h)
          · exact Or.inl ⟨rfl, hacc.1, hacc.2, heq⟩
          · exact Or.inr ⟨Or.inr hacc, h⟩
        · rintro (⟨rfl, -⟩ | ⟨-, h⟩)
          · exact Or.inl rfl
          · exact Or.inr h
      · rw [Bool.and_eq_true] at hacc
        constructor
        · exact fun h => absurd h List.not_mem_nil
        · rintro (⟨-, h1, h2, -⟩ | ⟨h | h, -⟩)
          · exact absurd ⟨h1, h2⟩ hacc
          · exact absurd h heq
          · exact absurd h hacc

/-- A walk that passes and skips no hole takes the word of every hole. -/
theorem taken_of_passes (hpass : passes hole accepts ps ws = true)
    (hnamed : ∀ x ∈ ps.zip ws, hole x.1 = true → x.2 ≠ x.1) :
    taken hole accepts ps ws = (ps.zip ws).filter fun x => hole x.1 := by
  induction ps generalizing ws with
  | nil => rfl
  | cons p ps ih =>
    cases ws with
    | nil => rfl
    | cons w ws =>
      rw [passes_cons] at hpass
      rw [List.zip_cons_cons, List.forall_mem_cons] at hnamed
      rw [taken, List.zip_cons_cons, List.filter_cons, ih hpass.2 hnamed.2]
      by_cases hp : hole p = true
      · have hacc := hpass.1.resolve_left (hnamed.1 hp)
        rw [if_neg (hnamed.1 hp), if_pos (Bool.and_eq_true _ _ ▸ hacc), if_pos (by exact hp)]
      · have heq := (admits_of_not_hole (Bool.not_eq_true _ ▸ hp)).mp hpass.1
        rw [if_pos heq, if_neg (by exact hp)]

/-! ### Patterns that clash -/

theorem clash_cons :
    clash hole (p :: ps) (q :: qs) = true ↔
      hole p = false ∧ hole q = false ∧ (p ≠ q ∨ clash hole ps qs = true) := by
  simp only [clash, Bool.and_eq_true, Bool.not_eq_true', Bool.or_eq_true, bne_iff_ne, and_assoc]

theorem clash_symm (h : clash hole ps qs = true) : clash hole qs ps = true := by
  induction ps generalizing qs with
  | nil => simp [clash] at h
  | cons p ps ih =>
    cases qs with
    | nil => simp [clash] at h
    | cons q qs =>
      rw [clash_cons] at h ⊢
      exact ⟨h.2.1, h.1, h.2.2.imp Ne.symm fun hc => ih hc⟩

/-- A text that passes one of two patterns that clash leaves the other before its first hole. -/
theorem of_clash (h : clash hole ps qs = true) (hlen : qs.length = ws.length)
    (hpass : passes hole accepts qs ws = true) :
    passes hole accepts ps ws = false ∧ taken hole accepts ps ws = [] := by
  induction ps generalizing qs ws with
  | nil => simp [clash] at h
  | cons p ps ih =>
    cases qs with
    | nil => simp [clash] at h
    | cons q qs =>
      cases ws with
      | nil => simp at hlen
      | cons w ws =>
        rw [clash_cons] at h
        obtain ⟨hp, hq, hc⟩ := h
        rw [passes_cons, admits_of_not_hole hq] at hpass
        obtain ⟨rfl, hpass⟩ := hpass
        rw [passes, taken]
        by_cases hwp : w = p
        · rw [if_pos hwp, if_pos hwp]
          exact ih (hc.resolve_left fun hne => hne hwp.symm) (Nat.succ.inj hlen) hpass
        · rw [if_neg hwp, if_neg hwp, hp]
          exact ⟨rfl, rfl⟩

theorem not_passes_of_clash (h : clash hole ps qs = true) (hlen : qs.length = ws.length)
    (hpass : passes hole accepts qs ws = true) : passes hole accepts ps ws = false :=
  (of_clash h hlen hpass).1

theorem taken_of_clash (h : clash hole ps qs = true) (hlen : qs.length = ws.length)
    (hpass : passes hole accepts qs ws = true) : taken hole accepts ps ws = [] :=
  (of_clash h hlen hpass).2

end M57Card.Patterns
