import Mathlib.Data.List.GetD
import Mathlib.Tactic.Linarith

/-!
# Files and descriptors of a process

The part of a POSIX process that `open`, `write` and `close` act on: a store of files named by
paths and a table of descriptors. A descriptor refers to a file with an offset of its own, or to
something else (a socket, a device). Only finitely many descriptors are in use, which the table
carries as a field, so that a lowest free one always exists.

The three first descriptors are the standard streams, and `open` never hands them out.

## Main definitions

* `FileTable`, with `FileTable.content` and `FileTable.descr`.
* `FileTable.create` : `open` with `O_CREAT | O_RDWR | O_TRUNC`.
* `FileTable.close`, `FileTable.write`.

## Main results

* `FileTable.descr_lowestFree` : the descriptor handed out was not in use.
* `FileTable.write_end` : a write at the end of a file appends to it.
* `FileTable.descr_write_of_ne`, `FileTable.content_write_of_ne` : a write leaves other descriptors
  and other files alone.
-/

namespace M57Card

/-- What a descriptor refers to. -/
inductive Descr (P : Type) where
  | file (path : P) (offset : ℕ)
  | other
  deriving DecidableEq

/-- The files and the descriptor table of a process; descriptors from `bound` on are free. -/
structure FileTable (P : Type) where
  content : P → Option (List UInt8)
  descr : ℕ → Option (Descr P)
  bound : ℕ
  descr_of_bound_le : ∀ n, bound ≤ n → descr n = none

namespace FileTable

variable {P : Type}

/-- No file, no descriptor in use. -/
def empty : FileTable P where
  content _ := none
  descr _ := none
  bound := 0
  descr_of_bound_le _ _ := rfl

/-- The first free descriptor among the `k` from `n` on, or `n + k`. -/
def firstFree (descr : ℕ → Option (Descr P)) : ℕ → ℕ → ℕ
  | 0, n => n
  | k + 1, n => if (descr n).isNone then n else firstFree descr k (n + 1)

/-- The lowest free descriptor above the standard streams. -/
def lowestFree (t : FileTable P) : ℕ := firstFree t.descr t.bound 3

theorem le_firstFree (descr : ℕ → Option (Descr P)) (k n : ℕ) : n ≤ firstFree descr k n := by
  induction k generalizing n with
  | zero => exact le_rfl
  | succ k ih =>
    rw [firstFree]
    split_ifs
    · exact le_rfl
    · exact (Nat.le_succ n).trans (ih (n + 1))

theorem descr_firstFree {descr : ℕ → Option (Descr P)} {bound : ℕ}
    (hb : ∀ n, bound ≤ n → descr n = none) (k n : ℕ) (hk : bound ≤ n + k) :
    descr (firstFree descr k n) = none := by
  induction k generalizing n with
  | zero => exact hb n hk
  | succ k ih =>
    rw [firstFree]
    split_ifs with h
    · exact Option.isNone_iff_eq_none.mp h
    · exact ih (n + 1) (by omega)

theorem three_le_lowestFree (t : FileTable P) : 3 ≤ t.lowestFree := le_firstFree _ _ _

/-- The descriptor handed out was not in use. -/
theorem descr_lowestFree (t : FileTable P) : t.descr t.lowestFree = none :=
  descr_firstFree t.descr_of_bound_le _ _ (Nat.le_add_left _ _)

/-- The table with descriptor `fd` set to `d`. -/
def setDescr (t : FileTable P) (fd : ℕ) (d : Option (Descr P)) : FileTable P where
  content := t.content
  descr := Function.update t.descr fd d
  bound := max t.bound (fd + 1)
  descr_of_bound_le n hn := by
    rw [Function.update_of_ne (by omega)]
    exact t.descr_of_bound_le n (by omega)

/-- `close`: the descriptor is free again; closing a free descriptor changes nothing. -/
def close (t : FileTable P) (fd : ℕ) : FileTable P :=
  if (t.descr fd).isNone then t else t.setDescr fd none

/-- The bytes of a file after `data` has been written at `offset`; a gap before the offset is
filled with zeros. -/
def overlay (old : List UInt8) (offset : ℕ) (data : List UInt8) : List UInt8 :=
  (old ++ List.replicate (offset - old.length) 0).take offset ++ data ++
    old.drop (offset + data.length)

theorem overlay_length_eq (old data : List UInt8) : overlay old old.length data = old ++ data := by
  simp [overlay]

theorem overlay_ne_nil {old data : List UInt8} {offset : ℕ} (h : old ≠ [] ∨ data ≠ []) :
    overlay old offset data ≠ [] := by
  intro hnil
  rw [overlay, List.append_eq_nil_iff, List.append_eq_nil_iff] at hnil
  obtain ⟨⟨htake, rfl⟩, hdrop⟩ := hnil
  refine h.resolve_right (not_not_intro rfl) (List.length_eq_zero_iff.mp ?_)
  have hlen := List.drop_eq_nil_iff.mp hdrop
  rw [List.take_eq_nil_iff] at htake
  rcases htake with rfl | happ
  · exact Nat.le_zero.mp hlen
  · rw [(List.append_eq_nil_iff.mp happ).1, List.length_nil]

@[simp] theorem content_setDescr (t : FileTable P) (fd : ℕ) (d : Option (Descr P)) :
    (t.setDescr fd d).content = t.content := rfl

@[simp] theorem descr_setDescr (t : FileTable P) (fd : ℕ) (d : Option (Descr P)) :
    (t.setDescr fd d).descr = Function.update t.descr fd d := rfl

@[simp] theorem content_close (t : FileTable P) (fd : ℕ) : (t.close fd).content = t.content := by
  rw [close]
  split_ifs <;> rfl

theorem descr_close (t : FileTable P) (fd : ℕ) :
    (t.close fd).descr = Function.update t.descr fd none := by
  rw [close]
  split_ifs with h
  · rw [← Option.isNone_iff_eq_none.mp h, Function.update_eq_self]
  · rfl

variable [DecidableEq P]

/-- The store with file `p` set to `c`. -/
def setContent (t : FileTable P) (p : P) (c : List UInt8) : FileTable P :=
  { t with content := Function.update t.content p (some c) }

/-- `open` with `O_CREAT | O_RDWR | O_TRUNC`: the file becomes empty and the lowest free
descriptor refers to its start. -/
def create (t : FileTable P) (p : P) : ℕ × FileTable P :=
  (t.lowestFree, (t.setContent p []).setDescr t.lowestFree (some (.file p 0)))

/-- `write`: the bytes go to the place of the descriptor's offset, which advances. The result is
`none` when the descriptor is not open. What `write` does to a socket or a device is outside the
table. -/
def write (t : FileTable P) (fd : ℕ) (data : List UInt8) : Option (FileTable P) :=
  match t.descr fd with
  | none => none
  | some .other => some t
  | some (.file p off) =>
      some ((t.setContent p (overlay ((t.content p).getD []) off data)).setDescr fd
        (some (.file p (off + data.length))))

@[simp] theorem descr_setContent (t : FileTable P) (p : P) (c : List UInt8) :
    (t.setContent p c).descr = t.descr := rfl

@[simp] theorem content_setContent (t : FileTable P) (p : P) (c : List UInt8) :
    (t.setContent p c).content = Function.update t.content p (some c) := rfl

theorem write_of_none {t : FileTable P} {fd : ℕ} (h : t.descr fd = none) (data : List UInt8) :
    t.write fd data = none := by
  rw [write, h]

theorem isSome_write (t : FileTable P) (fd : ℕ) (data : List UInt8) :
    (t.write fd data).isSome = (t.descr fd).isSome := by
  rw [write]
  rcases t.descr fd with _ | ⟨_, _⟩ | _ <;> rfl

/-- A write to a file overlays its content. -/
theorem write_file {t t' : FileTable P} {fd offset : ℕ} {p : P} {data : List UInt8}
    (hd : t.descr fd = some (.file p offset)) (hwrite : t.write fd data = some t') :
    t'.descr fd = some (.file p (offset + data.length)) ∧
      t'.content p = some (overlay ((t.content p).getD []) offset data) := by
  rw [write, hd] at hwrite
  obtain rfl := Option.some.inj hwrite
  simp

/-- A write at the end of a file appends to it and leaves the offset at the new end. -/
theorem write_end {t : FileTable P} {fd : ℕ} {p : P} {c : List UInt8}
    (hd : t.descr fd = some (.file p c.length)) (hc : t.content p = some c)
    (data : List UInt8) : ∃ t', t.write fd data = some t' ∧
      t'.descr = Function.update t.descr fd (some (.file p (c ++ data).length)) ∧
      t'.content = Function.update t.content p (some (c ++ data)) := by
  refine ⟨_, by rw [write, hd], ?_, ?_⟩
  · simp
  · simp [hc, overlay_length_eq]

/-! ### What the operations leave alone -/

theorem descr_create_of_isSome {t : FileTable P} {fd : ℕ} (h : (t.descr fd).isSome) (p : P) :
    (t.create p).2.descr fd = t.descr fd := by
  refine Function.update_of_ne (fun heq => ?_) _ _
  rw [heq, t.descr_lowestFree] at h
  exact Bool.noConfusion h

theorem content_create_of_ne {p q : P} (h : q ≠ p) (t : FileTable P) :
    (t.create p).2.content q = t.content q := Function.update_of_ne h _ _

theorem descr_write_of_ne {t t' : FileTable P} {fd fd' : ℕ} {data : List UInt8}
    (hwrite : t.write fd data = some t') (hne : fd' ≠ fd) : t'.descr fd' = t.descr fd' := by
  rw [write] at hwrite
  split at hwrite
  · exact absurd hwrite (Option.some_ne_none t').symm
  · rw [Option.some.inj hwrite]
  · obtain rfl := Option.some.inj hwrite
    exact Function.update_of_ne hne _ _

theorem content_write_of_ne {t t' : FileTable P} {fd : ℕ} {q : P} {data : List UInt8}
    (hwrite : t.write fd data = some t') (hq : ∀ offset, t.descr fd ≠ some (.file q offset)) :
    t'.content q = t.content q := by
  rw [write] at hwrite
  split at hwrite
  · exact absurd hwrite (Option.some_ne_none t').symm
  · rw [Option.some.inj hwrite]
  case h_3 p offset hd =>
    obtain rfl := Option.some.inj hwrite
    have hne : q ≠ p := fun heq => hq offset (heq ▸ hd)
    exact Function.update_of_ne hne _ _

end FileTable

end M57Card
