import Mathlib.Data.List.Nodup
import M57Card.Rest.Routing

/-!
# The action of a request and its parameters

What the table promises of a request: the action of the entry whose method and template match, and
no other, is called, with the parameters of that template bound to the words of the path. The code
keeps to it where the path is spelled as the template of a command without parameters, no word of
the path spells its own parameter, and each parameter text fits the buffer.

## Main definitions

* `RequestInfo.Matches`, `Routed` : what is promised.
* `Plain` : where the code keeps to it.

## Main results

* `routed_iff` : a request is routed as promised exactly where it is plain.
-/

namespace M57Card.Rest

open Patterns (Fits Admits taken)

/-- The bytes of `concat_url_param`. -/
def concatUrlParamSize : ℕ := 512

/-- The template matches the path: as many words, the literal words equal, a dot in a file name. -/
def RequestInfo.Matches (info : RequestInfo) (url : Text) : Prop :=
  List.Forall₂ (Fits isParam isValidParam) (words info.path) (words url)

/-- The client after a request. -/
def served (method : String) (url : Text) : Client :=
  (Client.request method (some url)).httpOnRequest.1

/-- The request is routed as the table says. -/
structure Routed (method : String) (url : Text) : Prop where
  atMostOne : (served method url).ran.length ≤ 1
  ran_iff : ∀ i, i ∈ (served method url).ran ↔
    ∃ info, httpReqCmd[i]? = some info ∧ info.method = method ∧ info.Matches url
  alone : ∀ (i j : ℕ) (a b : RequestInfo), httpReqCmd[i]? = some a → httpReqCmd[j]? = some b →
    a.method = method → b.method = method → a.Matches url → b.Matches url → i = j
  bound : ∀ i ∈ (served method url).ran, ∀ info, httpReqCmd[i]? = some info → ∀ name,
    (∀ n : ℕ, (words info.path)[n]? = some ('@' :: name) →
      kvlistGet (served method url).resetfulVar name = (words url)[n]?) ∧
    ('@' :: name ∉ words info.path → kvlistGet (served method url).resetfulVar name = none)
  notNull : ∀ i ∈ (served method url).ran, ∀ info, httpReqCmd[i]? = some info →
    ∀ name ∈ info.action.unchecked, kvlistGet (served method url).resetfulVar name ≠ none
  inBuffer : ∀ str ∈ (served method url).assembled, str.length + 1 ≤ concatUrlParamSize

/-- The path is spelled so that the comparison of the code and the templates say the same. -/
structure Plain (method : String) (url : Text) : Prop where
  /-- A path with the words of a template without parameters is spelled as the template. -/
  spelled : ∀ info ∈ httpReqCmd, info.method = method → hasParam info.path = false →
    words info.path = words url → url = info.path
  /-- Where the words go through a template, none of them spells its own parameter. -/
  named : ∀ info ∈ httpReqCmd, info.method = method → hasParam info.path = true →
    List.Forall₂ (Admits isParam isValidParam) (words info.path) (words url) →
    ∀ x ∈ (words info.path).zip (words url), isParam x.1 = true → x.2 ≠ x.1
  /-- Where the words go through a template up to a parameter, name and word fit the buffer. -/
  short : ∀ info ∈ httpReqCmd, info.method = method → hasParam info.path = true →
    (words info.path).length = (words url).length → ∀ (n : ℕ) (p w : Text),
    (words info.path)[n]? = some p → (words url)[n]? = some w → isParam p = true →
    isValidParam p w = true →
    List.Forall₂ (Admits isParam isValidParam) ((words info.path).take n) ((words url).take n) →
    p.length + w.length + 1 ≤ concatUrlParamSize

/-! ### The list of parameters -/

theorem takeWhile_comma {name : Text} (hname : ',' ∉ name) (w : Text) :
    (name ++ ',' :: w).takeWhile (· != ',') = name ∧
      (name ++ ',' :: w).dropWhile (· != ',') = ',' :: w := by
  have hall : ∀ c ∈ name, (c != ',') = true := fun c hc => by
    rw [bne_iff_ne]
    exact fun heq => hname (heq ▸ hc)
  constructor
  · rw [List.takeWhile_append_of_pos hall]
    simp
  · rw [List.dropWhile_append_of_pos hall]
    simp

/-- The text of a parameter is cut where it was put together. -/
theorem write_resetfulVar (cl : Client) {x : Text × Text} (hne : x.1.tail ≠ [])
    (hcomma : ',' ∉ x.1.tail) :
    (cl.write x).resetfulVar = kvlistSet cl.resetfulVar x.1.tail x.2 := by
  obtain ⟨htake, hdrop⟩ := takeWhile_comma hcomma x.2
  rw [Client.write, Client.parseResetfulVar, concatUrlParam, htake, hdrop]
  dsimp only
  rw [if_neg hne]

theorem foldl_write_of_notMem (xs : List (Text × Text)) (cl : Client) {name : Text}
    (hnamed : ∀ x ∈ xs, x.1.tail ≠ [] ∧ ',' ∉ x.1.tail) (hname : ∀ x ∈ xs, x.1.tail ≠ name) :
    kvlistGet (xs.foldl Client.write cl).resetfulVar name = kvlistGet cl.resetfulVar name := by
  induction xs generalizing cl with
  | nil => rfl
  | cons x xs ih =>
    rw [List.forall_mem_cons] at hnamed hname
    rw [List.foldl_cons, ih _ hnamed.2 hname.2, write_resetfulVar cl hnamed.1.1 hnamed.1.2]
    exact Function.update_of_ne hname.1.symm _ _

/-- A parameter keeps its word where nothing else is written under its name. -/
theorem foldl_write_of_mem (xs : List (Text × Text)) (cl : Client) {x : Text × Text}
    (hnamed : ∀ y ∈ xs, y.1.tail ≠ [] ∧ ',' ∉ y.1.tail)
    (hsame : ∀ y ∈ xs, y.1.tail = x.1.tail → y.2 = x.2) (hx : x ∈ xs) :
    kvlistGet (xs.foldl Client.write cl).resetfulVar x.1.tail = some x.2 := by
  induction xs generalizing cl x with
  | nil => exact absurd hx List.not_mem_nil
  | cons y xs ih =>
    rw [List.forall_mem_cons] at hnamed hsame
    rw [List.foldl_cons]
    by_cases hlater : ∃ z ∈ xs, z.1.tail = x.1.tail
    · obtain ⟨z, hz, hname⟩ := hlater
      have hword := hsame.2 z hz hname
      rw [← hname, ← hword]
      exact ih _ hnamed.2 (fun y hy h => (hsame.2 y hy (h.trans hname)).trans hword.symm) hz
    · obtain rfl : x = y := (List.mem_cons.mp hx).resolve_right fun hx => hlater ⟨x, hx, rfl⟩
      rw [foldl_write_of_notMem xs _ hnamed.2 fun z hz h => hlater ⟨z, hz, h⟩,
        write_resetfulVar cl hnamed.1.1 hnamed.1.2]
      exact Function.update_self _ _ _

/-! ### The entry whose action is called -/

section

variable {method : String} {url : Text} {i : ℕ} {info : RequestInfo}

theorem exists_agrees_or_none (method : String) (url : Text) :
    (∃ (j : ℕ) (info : RequestInfo), httpReqCmd[j]? = some info ∧ info.method = method ∧
      agrees url info.path = true) ∨
    ∀ info ∈ httpReqCmd, info.method = method → agrees url info.path = false := by
  by_contra hcon
  rw [not_or] at hcon
  refine hcon.2 fun info hinfo hmethod => Bool.eq_false_iff.mpr fun hagrees => hcon.1 ?_
  obtain ⟨j, hj⟩ := List.getElem?_of_mem hinfo
  exact ⟨j, info, hj, hmethod, hagrees⟩

theorem mem_ran_iff :
    i ∈ (served method url).ran ↔
      ∃ info, httpReqCmd[i]? = some info ∧ info.method = method ∧ agrees url info.path = true := by
  rcases exists_agrees_or_none method url with ⟨j, b, hj, hm, hb⟩ | hnone
  · rw [served, httpOnRequest_of_agrees hj hm hb, List.mem_singleton]
    constructor
    · rintro rfl
      exact ⟨b, hj, hm, hb⟩
    · rintro ⟨a, hi, hma, ha⟩
      by_contra hij
      have hnot := (alone_of_agrees hi hj hij (hma.trans hm.symm) hb).1
      exact Bool.false_ne_true (hnot.symm.trans ha)
  · rw [served, httpOnRequest_of_none hnone]
    refine iff_of_false ?_ ?_
    · simp [Client.request]
    · rintro ⟨a, hi, hma, ha⟩
      exact Bool.false_ne_true ((hnone a (List.mem_of_getElem? hi) hma).symm.trans ha)

theorem ran_length_le : (served method url).ran.length ≤ 1 := by
  rcases exists_agrees_or_none method url with ⟨j, b, hj, hm, hb⟩ | hnone
  · rw [served, httpOnRequest_of_agrees hj hm hb]
    exact Nat.le_refl 1
  · rw [served, httpOnRequest_of_none hnone]
    simp [Client.request]

/-- A template without parameters matches the paths with its words. -/
theorem matches_iff_of_not_hasParam (hinfo : info ∈ httpReqCmd)
    (hparam : hasParam info.path = false) : info.Matches url ↔ words info.path = words url := by
  have hlit : ∀ p ∈ words info.path, isParam p = false := fun p hp =>
    Bool.eq_false_iff.mpr fun h => Bool.false_ne_true
      (hparam.symm.trans ((wellFormed_of_mem hinfo).hasParam_of_isParam p hp h))
  rw [RequestInfo.Matches, ← List.forall₂_eq_eq_eq, List.forall₂_iff_zip, List.forall₂_iff_zip]
  refine and_congr_right fun _ => forall₂_congr fun p w => ?_
  refine forall_congr' fun hzip => ?_
  rw [Fits, hlit p (List.of_mem_zip hzip).1, if_neg Bool.false_ne_true]
  exact eq_comm

/-- A template with parameters that matches is gone through. -/
theorem admits_of_matches (h : info.Matches url) :
    List.Forall₂ (Admits isParam isValidParam) (words info.path) (words url) :=
  h.imp fun _ _ => Patterns.Fits.admits

theorem agrees_iff_of_not_hasParam (hparam : hasParam info.path = false) :
    agrees url info.path = true ↔ url = info.path := by
  rw [agrees, hparam, urlParamNumIsEqual, Bool.and_eq_true, beq_iff_eq]
  simp only [Bool.false_eq_true, if_false, beq_iff_eq]
  exact and_iff_right_of_imp fun h => h ▸ rfl

theorem agrees_iff_of_hasParam (hparam : hasParam info.path = true) :
    agrees url info.path = true ↔
      List.Forall₂ (Admits isParam isValidParam) (words info.path) (words url) := by
  rw [agrees, hparam, urlParamNumIsEqual, Bool.and_eq_true, beq_iff_eq, if_pos rfl]
  constructor
  · exact fun h => (Patterns.passes_iff h.1).mp h.2
  · exact fun h => ⟨h.length_eq, (Patterns.passes_iff h.length_eq).mpr h⟩

theorem Plain.agrees_iff (h : Plain method url) (hinfo : info ∈ httpReqCmd)
    (hmethod : info.method = method) : agrees url info.path = true ↔ info.Matches url := by
  cases hparam : hasParam info.path with
  | false =>
    rw [agrees_iff_of_not_hasParam hparam, matches_iff_of_not_hasParam hinfo hparam]
    exact ⟨fun heq => heq ▸ rfl, h.spelled info hinfo hmethod hparam⟩
  | true =>
    rw [agrees_iff_of_hasParam hparam]
    refine ⟨fun hadm => ?_, admits_of_matches⟩
    have hnamed := h.named info hinfo hmethod hparam hadm
    rw [RequestInfo.Matches, List.forall₂_iff_zip]
    rw [List.forall₂_iff_zip] at hadm
    exact ⟨hadm.1, fun hzip => (hadm.2 hzip).fits (hnamed _ hzip)⟩

/-! ### The parameters that are bound -/

theorem eq_cons_of_isParam (hinfo : info ∈ httpReqCmd) {p : Text} (hp : p ∈ words info.path)
    (hparam : isParam p = true) : p = '@' :: p.tail :=
  List.eq_cons_of_mem_head? ((wellFormed_of_mem hinfo).named p hp hparam).1

theorem isParam_at (name : Text) : isParam ('@' :: name) = true := rfl

theorem concatUrlParam_length {p : Text} (hp : p ≠ []) (w : Text) :
    (concatUrlParam p w).length = p.length + w.length := by
  cases p with
  | nil => exact absurd rfl hp
  | cons c p =>
    rw [concatUrlParam, List.tail_cons, List.length_append, List.length_cons, List.length_cons]
    omega

theorem mem_written_iff {x : Text × Text} :
    x ∈ written url info.path ↔ (words info.path).length = (words url).length ∧
      hasParam info.path = true ∧
      ∃ n, (words info.path)[n]? = some x.1 ∧ (words url)[n]? = some x.2 ∧ isParam x.1 = true ∧
        isValidParam x.1 x.2 = true ∧ x.2 ≠ x.1 ∧
        List.Forall₂ (Admits isParam isValidParam) ((words info.path).take n)
          ((words url).take n) := by
  rw [written, urlParamNumIsEqual]
  split_ifs with h
  · rw [Bool.and_eq_true, beq_iff_eq] at h
    rw [Patterns.mem_taken_iff, and_iff_right h.1, and_iff_right h.2]
  · rw [Bool.and_eq_true, beq_iff_eq] at h
    exact iff_of_false List.not_mem_nil fun hx => h ⟨hx.1, hx.2.1⟩

theorem named_of_mem_written (hinfo : info ∈ httpReqCmd) {x : Text × Text}
    (hx : x ∈ written url info.path) :
    x.1 = '@' :: x.1.tail ∧ x.1 ∈ words info.path ∧ x.1.tail ≠ [] ∧ ',' ∉ x.1.tail := by
  obtain ⟨-, -, n, hp, -, hparam, -⟩ := mem_written_iff.mp hx
  have hmem := List.mem_of_getElem? hp
  obtain ⟨-, hne, hcomma, -⟩ := (wellFormed_of_mem hinfo).named _ hmem hparam
  exact ⟨eq_cons_of_isParam hinfo hmem hparam, hmem, hne, hcomma⟩

/-- A word is the word of one position only. -/
theorem getElem?_words_inj (hinfo : info ∈ httpReqCmd) {n k : ℕ} {p : Text}
    (hn : (words info.path)[n]? = some p) (hk : (words info.path)[k]? = some p) : n = k := by
  obtain ⟨hn', hnp⟩ := List.getElem?_eq_some_iff.mp hn
  obtain ⟨hk', hkp⟩ := List.getElem?_eq_some_iff.mp hk
  exact (List.Nodup.getElem_inj_iff (wellFormed_of_mem hinfo).nodup).mp (hnp.trans hkp.symm)

section

variable (hi : httpReqCmd[i]? = some info) (hmethod : info.method = method)
  (ha : agrees url info.path = true)

include hi hmethod ha

theorem served_resetfulVar :
    (served method url).resetfulVar =
      ((written url info.path).foldl Client.write
        (Client.request method (some url))).resetfulVar := by
  rw [served, httpOnRequest_of_agrees hi hmethod ha]

theorem served_assembled :
    (served method url).assembled =
      (written url info.path).map fun x => concatUrlParam x.1 x.2 := by
  rw [served, httpOnRequest_of_agrees hi hmethod ha]
  exact (foldl_write_assembled _ _).trans (List.nil_append _)

/-- A name that is not written is not bound. -/
theorem kvlistGet_of_notMem {name : Text}
    (hname : ∀ x ∈ written url info.path, x.1 ≠ '@' :: name) :
    kvlistGet (served method url).resetfulVar name = none := by
  have hinfo := List.mem_of_getElem? hi
  rw [served_resetfulVar hi hmethod ha, foldl_write_of_notMem]
  · rfl
  · exact fun x hx => (named_of_mem_written hinfo hx).2.2
  · exact fun x hx heq => hname x hx (heq ▸ (named_of_mem_written hinfo hx).1)

/-- A name that is written is bound to the word at its position. -/
theorem kvlistGet_of_mem {name w : Text} (hx : ('@' :: name, w) ∈ written url info.path) :
    kvlistGet (served method url).resetfulVar name = some w := by
  have hinfo := List.mem_of_getElem? hi
  rw [served_resetfulVar hi hmethod ha]
  refine foldl_write_of_mem (x := ('@' :: name, w)) _ _
    (fun y hy => (named_of_mem_written hinfo hy).2.2) (fun y hy hname => ?_) hx
  have hy1 : y.1 = '@' :: name := by rw [(named_of_mem_written hinfo hy).1, hname, List.tail_cons]
  obtain ⟨-, -, n, hp, hw, -⟩ := mem_written_iff.mp hx
  obtain ⟨-, -, k, hp', hw', -⟩ := mem_written_iff.mp hy
  obtain rfl := getElem?_words_inj hinfo hp (hy1 ▸ hp')
  exact Option.some.inj (hw'.symm.trans hw)

/-- A path that goes through the template and spells no parameter binds each of them. -/
theorem bound_of_named
    (hnamed : ∀ x ∈ (words info.path).zip (words url), isParam x.1 = true → x.2 ≠ x.1)
    (name : Text) :
    (∀ n : ℕ, (words info.path)[n]? = some ('@' :: name) →
      kvlistGet (served method url).resetfulVar name = (words url)[n]?) ∧
    ('@' :: name ∉ words info.path → kvlistGet (served method url).resetfulVar name = none) := by
  have hinfo := List.mem_of_getElem? hi
  obtain ⟨hlen, hpass⟩ := passes_of_agrees ha
  constructor
  · intro n hn
    have hlt : n < (words url).length := by
      rw [← hlen]
      exact (List.getElem?_eq_some_iff.mp hn).1
    have hw : (words url)[n]? = some (words url)[n] := List.getElem?_eq_getElem hlt
    have hzip : ('@' :: name, (words url)[n]) ∈ (words info.path).zip (words url) :=
      List.mem_of_getElem? (List.getElem?_zip_eq_some.mpr ⟨hn, hw⟩)
    have hparam := (wellFormed_of_mem hinfo).hasParam_of_isParam _ (List.mem_of_getElem? hn)
      (isParam_at name)
    rw [hw]
    refine kvlistGet_of_mem hi hmethod ha ?_
    rw [written, urlParamNumIsEqual, beq_iff_eq.mpr hlen, hparam, Bool.and_self, if_pos rfl,
      Patterns.taken_of_passes hpass hnamed, List.mem_filter]
    exact ⟨hzip, isParam_at name⟩
  · intro hname
    refine kvlistGet_of_notMem hi hmethod ha fun x hx heq => hname ?_
    exact heq ▸ (named_of_mem_written hinfo hx).2.1

end

/-! ### The texts that are put together -/

/-- Every parameter that an entry of the method writes is put together. -/
theorem mem_assembled (hi : httpReqCmd[i]? = some info) (hmethod : info.method = method)
    {x : Text × Text} (hx : x ∈ written url info.path) :
    concatUrlParam x.1 x.2 ∈ (served method url).assembled := by
  rcases exists_agrees_or_none method url with ⟨j, b, hj, hm, hb⟩ | hnone
  · rw [served_assembled hj hm hb]
    by_cases hij : i = j
    · subst hij
      obtain rfl := Option.some.inj (hi.symm.trans hj)
      exact List.mem_map.mpr ⟨x, hx, rfl⟩
    · rw [(alone_of_agrees hi hj hij (hmethod.trans hm.symm) hb).2] at hx
      exact absurd hx List.not_mem_nil
  · rw [served, httpOnRequest_of_none hnone]
    refine (foldl_write_assembled _ _).symm ▸ List.mem_append_right _ ?_
    refine List.mem_map.mpr ⟨x, List.mem_flatMap.mpr ⟨(info, i), ?_, hx⟩, rfl⟩
    exact List.mem_filter.mpr ⟨List.mem_zipIdx_iff_getElem?.mpr hi, beq_iff_eq.mpr hmethod⟩

/-- Nothing else is put together. -/
theorem exists_of_mem_assembled {str : Text} (hstr : str ∈ (served method url).assembled) :
    ∃ info ∈ httpReqCmd, info.method = method ∧
      ∃ x ∈ written url info.path, str = concatUrlParam x.1 x.2 := by
  rcases exists_agrees_or_none method url with ⟨j, b, hj, hm, hb⟩ | hnone
  · rw [served_assembled hj hm hb] at hstr
    obtain ⟨x, hx, rfl⟩ := List.mem_map.mp hstr
    exact ⟨b, List.mem_of_getElem? hj, hm, x, hx, rfl⟩
  · rw [served, httpOnRequest_of_none hnone] at hstr
    have hstr := (foldl_write_assembled _ _).subst hstr
    obtain ⟨x, hx, rfl⟩ := List.mem_map.mp ((List.mem_append.mp hstr).resolve_left List.not_mem_nil)
    obtain ⟨y, hy, hxy⟩ := List.mem_flatMap.mp hx
    rw [List.mem_filter, beq_iff_eq] at hy
    exact ⟨y.1, List.mem_of_getElem? (getElem?_of_mem_zipIdx hy.1), hy.2, x, hxy, rfl⟩

end

/-! ### Requests that are routed as promised -/

/-- Two templates of one method do not match the same path. -/
theorem eq_of_matches {url : Text} {i j : ℕ} {a b : RequestInfo} (hi : httpReqCmd[i]? = some a)
    (hj : httpReqCmd[j]? = some b) (hmethod : a.method = b.method) (ha : a.Matches url)
    (hb : b.Matches url) : i = j := by
  by_contra hij
  have hlena := (admits_of_matches ha).length_eq
  have hlenb := (admits_of_matches hb).length_eq
  have hclash := clash_of_ne hi hj hij hmethod (hlena.trans hlenb.symm)
  have hpassa := (Patterns.passes_iff hlena).mpr (admits_of_matches ha)
  have hpassb := (Patterns.passes_iff hlenb).mpr (admits_of_matches hb)
  exact Bool.false_ne_true ((Patterns.not_passes_of_clash hclash hlenb hpassb).symm.trans hpassa)

section

variable {method : String} {url : Text}

theorem Plain.inBuffer (h : Plain method url) {str : Text}
    (hstr : str ∈ (served method url).assembled) : str.length + 1 ≤ concatUrlParamSize := by
  obtain ⟨info, hinfo, hm, x, hx, rfl⟩ := exists_of_mem_assembled hstr
  have hcons := (named_of_mem_written hinfo hx).1
  obtain ⟨hlen, hparam, n, hp, hw, hisParam, hvalid, -, hpre⟩ := mem_written_iff.mp hx
  rw [concatUrlParam_length (by rw [hcons]; exact List.cons_ne_nil _ _)]
  exact h.short info hinfo hm hparam hlen n x.1 x.2 hp hw hisParam hvalid hpre

theorem Plain.bound (h : Plain method url) {i : ℕ} {info : RequestInfo}
    (hi : httpReqCmd[i]? = some info) (hran : i ∈ (served method url).ran) (name : Text) :
    (∀ n : ℕ, (words info.path)[n]? = some ('@' :: name) →
      kvlistGet (served method url).resetfulVar name = (words url)[n]?) ∧
    ('@' :: name ∉ words info.path → kvlistGet (served method url).resetfulVar name = none) := by
  obtain ⟨a, hi', hm, ha⟩ := mem_ran_iff.mp hran
  obtain rfl := Option.some.inj (hi.symm.trans hi')
  have hinfo := List.mem_of_getElem? hi
  refine bound_of_named hi hm ha (fun x hx hisParam => ?_) name
  -- A template with a parameter is compared word by word.
  have hparam := (wellFormed_of_mem hinfo).hasParam_of_isParam _ (List.of_mem_zip hx).1 hisParam
  exact h.named info hinfo hm hparam ((agrees_iff_of_hasParam hparam).mp ha) x hx hisParam

theorem routed_of_plain (h : Plain method url) : Routed method url where
  atMostOne := ran_length_le
  ran_iff i := by
    rw [mem_ran_iff]
    refine exists_congr fun info => and_congr_right fun hi => and_congr_right fun hm => ?_
    exact h.agrees_iff (List.mem_of_getElem? hi) hm
  alone _ _ _ _ hi hj hma hmb := eq_of_matches hi hj (hma.trans hmb.symm)
  bound _ hran _ hi := h.bound hi hran
  notNull i hran info hi name hname := by
    have hinfo := List.mem_of_getElem? hi
    obtain ⟨n, hn⟩ := List.getElem?_of_mem ((wellFormed_of_mem hinfo).unchecked name hname)
    obtain ⟨a, hi', -, ha⟩ := mem_ran_iff.mp hran
    obtain rfl := Option.some.inj (hi.symm.trans hi')
    have hlt : n < (words url).length := by
      rw [← (passes_of_agrees ha).1]
      exact (List.getElem?_eq_some_iff.mp hn).1
    rw [(h.bound hi hran name).1 n hn, List.getElem?_eq_getElem hlt]
    exact Option.some_ne_none _
  inBuffer _ := h.inBuffer

theorem plain_of_routed (h : Routed method url) : Plain method url where
  spelled info hinfo hm hparam hwords := by
    obtain ⟨i, hi⟩ := List.getElem?_of_mem hinfo
    have hmatches := (matches_iff_of_not_hasParam hinfo hparam).mpr hwords
    obtain ⟨a, hi', -, ha⟩ := mem_ran_iff.mp ((h.ran_iff i).mpr ⟨info, hi, hm, hmatches⟩)
    obtain rfl := Option.some.inj (hi.symm.trans hi')
    exact (agrees_iff_of_not_hasParam hparam).mp ha
  named info hinfo hm hparam hadm x hx hisParam heq := by
    obtain ⟨i, hi⟩ := List.getElem?_of_mem hinfo
    have ha := (agrees_iff_of_hasParam hparam).mpr hadm
    obtain ⟨n, hn⟩ := List.getElem?_of_mem hx
    obtain ⟨hp, hw⟩ := List.getElem?_zip_eq_some.mp hn
    have hcons := eq_cons_of_isParam hinfo (List.mem_of_getElem? hp) hisParam
    -- The parameter is promised the word, but the walk skips it.
    have hbound := (h.bound i (mem_ran_iff.mpr ⟨info, hi, hm, ha⟩) info hi x.1.tail).1 n
      (hp.trans (congrArg some hcons))
    rw [hw, kvlistGet_of_notMem hi hm ha] at hbound
    · exact absurd hbound.symm (Option.some_ne_none _)
    · intro y hy hname
      obtain ⟨-, -, k, hp', hw', -, -, hne, -⟩ := mem_written_iff.mp hy
      rw [← hcons] at hname
      obtain rfl := getElem?_words_inj hinfo hp (hname ▸ hp')
      exact hne ((Option.some.inj (hw'.symm.trans hw)).trans (heq.trans hname.symm))
  short info hinfo hm hparam hlen n p w hp hw hisParam hvalid hpre := by
    obtain ⟨i, hi⟩ := List.getElem?_of_mem hinfo
    have hmem := List.mem_of_getElem? hp
    by_cases hwp : w = p
    · have hsize := ((wellFormed_of_mem hinfo).named p hmem hisParam).2.2.2
      rw [hwp, concatUrlParamSize]
      omega
    · have hx : (p, w) ∈ written url info.path :=
        mem_written_iff.mpr ⟨hlen, hparam, n, hp, hw, hisParam, hvalid, hwp, hpre⟩
      have hfits := h.inBuffer _ (mem_assembled hi hm hx)
      have hcons := eq_cons_of_isParam hinfo hmem hisParam
      rwa [concatUrlParam_length (by rw [hcons]; exact List.cons_ne_nil _ _)] at hfits

/-- A request is routed as the table promises exactly where its path is plain. -/
theorem routed_iff (method : String) (url : Text) : Routed method url ↔ Plain method url :=
  ⟨plain_of_routed, routed_of_plain⟩

end

/-- The words are those of the template, and it does not agree. -/
example : words "//ping".toList = words "/ping".toList ∧
    agrees "//ping".toList "/ping".toList = false := by
  decide +kernel

/-- A word that spells its own parameter: the command is called, and its `type` is not there. -/
theorem not_routed_own_name : ¬ Routed "PUT" "/enable/0/@type/1".toList := by
  intro h
  have hentry : httpReqCmd[25]? =
      some (cmd "PUT" "/enable/@ch/@type/@value" (-1) .cmdChEnableSet) := rfl
  have hmethod : (cmd "PUT" "/enable/@ch/@type/@value" (-1) .cmdChEnableSet).method = "PUT" := rfl
  have hagrees : agrees "/enable/0/@type/1".toList "/enable/@ch/@type/@value".toList = true := by
    decide +kernel
  have hran : 25 ∈ (served "PUT" "/enable/0/@type/1".toList).ran :=
    mem_ran_iff.mpr ⟨_, hentry, hmethod, hagrees⟩
  have hnull : kvlistGet (served "PUT" "/enable/0/@type/1".toList).resetfulVar "type".toList =
      none := by
    rw [served_resetfulVar hentry hmethod hagrees]
    decide +kernel
  exact h.notNull 25 hran _ rfl _ (List.mem_singleton.mpr rfl) hnull

end M57Card.Rest
