import Mathlib.Data.Int.Notation
import Mathlib.Data.List.Basic
import Mathlib.Tactic.SplitIfs

/-!
# JSON trees

A parsed JSON text as a tree, with the lookups of a C library that finds the children of a node by
position or by name, in the order of the text, where the names of an object may be repeated and are
compared without regard to case. A number is the `int` that the library has for it.

Programs change a tree in place: at the first child of a name, or at every child of a node. The
lemmas say what the lookups give afterwards.

## Main definitions

* `Json`, `Json.getItem`, `Json.items`.
* `Json.number?`, `Json.string?`, `Json.valueInt`.
* `Json.modifyItem`, `Json.mapItems`, `Json.setNumber`.

## Main results

* `getItem_modifyItem_self`, `getItem_modifyItem_of_ne`, `items_mapItems`.
* `modifyItem_modifyItem`, `modifyItem_comm`, `mapItems_mapItems`.
-/

namespace M57Card

/-- A JSON tree. -/
inductive Json where
  | null
  | bool (b : Bool)
  | num (n : ℤ)
  | str (s : String)
  | arr (items : List Json)
  | obj (fields : List (String × Json))

namespace Json

/-- Names are compared without regard to case. -/
def sameName (a b : String) : Bool := a.toList.map Char.toLower == b.toList.map Char.toLower

/-- The first child with a name. -/
def getItem (name : String) : Json → Option Json
  | .obj fields => (fields.find? fun x => sameName name x.1).map Prod.snd
  | _ => none

/-- The children of a node, by position. -/
def items : Json → List Json
  | .arr items => items
  | .obj fields => fields.map Prod.snd
  | _ => []

/-- The value of a number. -/
def number? : Json → Option ℤ
  | .num n => some n
  | _ => none

/-- The text of a string. -/
def string? : Json → Option String
  | .str s => some s
  | _ => none

/-- The integer that the library keeps for a node of any kind. -/
def valueInt : Json → ℤ
  | .num n => n
  | .bool b => if b then 1 else 0
  | _ => 0

/-- Change the first field with a name. -/
def modifyFields (name : String) (f : Json → Json) : List (String × Json) → List (String × Json)
  | [] => []
  | x :: xs => if sameName name x.1 then (x.1, f x.2) :: xs else x :: modifyFields name f xs

/-- Change the first child with a name. -/
def modifyItem (name : String) (f : Json → Json) : Json → Json
  | .obj fields => .obj (modifyFields name f fields)
  | j => j

/-- Change every child, knowing its position. -/
def mapItems (f : ℕ → Json → Json) : Json → Json
  | .arr items => .arr (items.mapIdx f)
  | .obj fields => .obj (fields.mapIdx fun i x => (x.1, f i x.2))
  | j => j

/-- Change the value of a number; a node of another kind keeps its value. -/
def setNumber (n : ℤ) : Json → Json
  | .num _ => .num n
  | j => j

/-! ### Names -/

theorem sameName_eq_true {a b : String} :
    sameName a b = true ↔ a.toList.map Char.toLower = b.toList.map Char.toLower :=
  beq_iff_eq

/-- Two different names have no spelling in common. -/
theorem sameName_of_ne {a b k : String} (hab : sameName a b = false) (hk : sameName a k = true) :
    sameName b k = false := by
  by_contra hbk
  rw [Bool.not_eq_false, sameName_eq_true] at hbk
  rw [sameName_eq_true] at hk
  have hsame : sameName a b = true := sameName_eq_true.mpr (hk.trans hbk.symm)
  exact absurd (hab.symm.trans hsame) Bool.false_ne_true

/-! ### Lookups after a change -/

theorem find?_modifyFields_self (name : String) (f : Json → Json) (xs : List (String × Json)) :
    ((modifyFields name f xs).find? fun x => sameName name x.1).map Prod.snd =
      ((xs.find? fun x => sameName name x.1).map Prod.snd).map f := by
  induction xs with
  | nil => rfl
  | cons x xs ih =>
    rw [modifyFields]
    split_ifs with hx
    · rw [List.find?_cons_of_pos (by exact hx), List.find?_cons_of_pos (by exact hx)]
      rfl
    · rw [List.find?_cons_of_neg (by simpa using hx), List.find?_cons_of_neg (by simpa using hx)]
      exact ih

theorem find?_modifyFields_of_ne {a b : String} (hab : sameName a b = false) (f : Json → Json)
    (xs : List (String × Json)) :
    ((modifyFields a f xs).find? fun x => sameName b x.1).map Prod.snd =
      (xs.find? fun x => sameName b x.1).map Prod.snd := by
  induction xs with
  | nil => rfl
  | cons x xs ih =>
    rw [modifyFields]
    split_ifs with hx
    · have hb := sameName_of_ne hab hx
      rw [List.find?_cons_of_neg (by simpa using hb), List.find?_cons_of_neg (by simpa using hb)]
    · by_cases hb : sameName b x.1 = true
      · rw [List.find?_cons_of_pos (by exact hb), List.find?_cons_of_pos (by exact hb)]
      · rw [List.find?_cons_of_neg (by simpa using hb), List.find?_cons_of_neg (by simpa using hb)]
        exact ih

@[simp] theorem getItem_modifyItem_self (name : String) (f : Json → Json) (j : Json) :
    (modifyItem name f j).getItem name = (j.getItem name).map f := by
  cases j with
  | obj fields => exact find?_modifyFields_self name f fields
  | _ => rfl

theorem getItem_modifyItem_of_ne {a b : String} (hab : sameName a b = false) (f : Json → Json)
    (j : Json) : (modifyItem a f j).getItem b = j.getItem b := by
  cases j with
  | obj fields => exact find?_modifyFields_of_ne hab f fields
  | _ => rfl

@[simp] theorem items_mapItems (f : ℕ → Json → Json) (j : Json) :
    (mapItems f j).items = j.items.mapIdx f := by
  cases j with
  | obj fields =>
    refine List.ext_getElem? fun i => ?_
    simp only [mapItems, items, List.getElem?_map, List.getElem?_mapIdx, Option.map_map]
    rfl
  | _ => rfl

@[simp] theorem number?_setNumber (n : ℤ) (j : Json) :
    (setNumber n j).number? = j.number?.map fun _ => n := by
  cases j <;> rfl

/-! ### Two changes -/

theorem modifyItem_modifyItem (name : String) (f g : Json → Json) (j : Json) :
    modifyItem name g (modifyItem name f j) = modifyItem name (g ∘ f) j := by
  cases j with
  | obj fields =>
    refine congrArg Json.obj ?_
    induction fields with
    | nil => rfl
    | cons x xs ih =>
      rw [modifyFields, modifyFields]
      split_ifs with hx
      · rw [modifyFields, if_pos hx]
        rfl
      · rw [modifyFields, if_neg hx, ih]
  | _ => rfl

/-- Changes at different names. -/
theorem modifyItem_comm {a b : String} (hab : sameName a b = false) (f g : Json → Json) (j : Json) :
    modifyItem b g (modifyItem a f j) = modifyItem a f (modifyItem b g j) := by
  cases j with
  | obj fields =>
    refine congrArg Json.obj ?_
    induction fields with
    | nil => rfl
    | cons x xs ih =>
      by_cases ha : sameName a x.1 = true
      · have hb := sameName_of_ne hab ha
        simp [modifyFields, ha, hb]
      · by_cases hb : sameName b x.1 = true
        · simp [modifyFields, ha, hb]
        · simp [modifyFields, ha, hb, ih]
  | _ => rfl

theorem mapItems_mapItems (f g : ℕ → Json → Json) (j : Json) :
    mapItems g (mapItems f j) = mapItems (fun i => g i ∘ f i) j := by
  cases j with
  | arr items => exact congrArg Json.arr List.mapIdx_mapIdx
  | obj fields => exact congrArg Json.obj List.mapIdx_mapIdx
  | _ => rfl

theorem setNumber_setNumber (m n : ℤ) (j : Json) : setNumber n (setNumber m j) = setNumber n j := by
  cases j <;> rfl

end Json

end M57Card
