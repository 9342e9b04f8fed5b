import Mathlib.Algebra.Ring.Nat
import Mathlib.Data.List.Nodup
import Mathlib.Data.List.Range
import M57Card.Lib.Runs

/-!
# File status notifications

While a recording goes on, a timer sends the status of its files (`fs_notifier.c`): a finished split
file is put at the head of the list `flist`, the timer sends and frees what stands in the list and
then sends the current node, and the exit sends the last status. The current node is in the list
between `fs_notifier_add_node_to_list` and `fs_notifier_create_node`, and a timer tick there reads
it after it is freed; two files in the list are sent in the wrong order; and an exit whose wait runs
out leaves the list unsent.

## Main definitions

* `fsNotifierTimeOut`, `fsNotifierCreateNode`, `fsNotifierAddNodeToList`, `fsNotifierExit` : the
  model.
* `FsNotifier.Right` : what is sent.
* `Timely` : the ticks and exits that keep it.

## Main results

* `right_iff_timely` : every state of a run is right exactly when its ticks and its exit are timely.
-/

namespace M57Card.Fs

/-! ### The model -/

/-- `file_notify_status`. -/
inductive FileNotifyStatus where
  | new
  | store
  | finish
  | unOver
  | over
  deriving DecidableEq

/-- `fs_node`, without its times. -/
structure FsNode where
  ch : ℕ
  filename : List Char
  nbyte : ℕ
  status : FileNotifyStatus
  sendNew : Bool

/-- What `akt_send_file_status` sends of a node, and the number of the node. -/
structure FileStatus where
  file : ℕ
  ch : ℕ
  path : List Char
  filesize : ℕ
  state : FileNotifyStatus

/-- Where the save thread is: behind `fs_notifier_create_node`, behind
`fs_notifier_add_node_to_list`, or behind `fs_notifier_exit`. -/
inductive SavePhase where
  | recording
  | splitting
  | exited
  deriving DecidableEq

/-- `fs_notifier` with the nodes that were allocated, in the order of their files; a freed node is
`none`, and the pointers are the numbers of nodes. -/
structure FsNotifier where
  ch : ℕ
  nodes : List (Option FsNode)
  flist : List ℕ
  flistNum : ℕ
  fnode : ℕ
  phase : SavePhase
  sent : List FileStatus
  readFreed : Bool

namespace FsNotifier

variable (s : FsNotifier)

/-- The node `k`, if it is not freed. -/
def node (k : ℕ) : Option FsNode := s.nodes[k]?.join

/-- `akt_send_file_status`. -/
def aktSendFileStatus (k : ℕ) : FsNotifier :=
  match s.node k with
  | some n => { s with sent := s.sent ++ [⟨k, n.ch, n.filename, n.nbyte, n.status⟩] }
  | none => { s with readFreed := true }

/-- Writes to the node `k`. -/
def modifyNode (k : ℕ) (f : FsNode → FsNode) : FsNotifier :=
  { s with nodes := s.nodes.modify k (Option.map f) }

/-- `safe_free` of the node `k`. -/
def safeFree (k : ℕ) : FsNotifier := { s with nodes := s.nodes.set k none }

/-- `list_del` of the node `k`. -/
def listDel (k : ℕ) : FsNotifier :=
  { s with flist := s.flist.erase k, flistNum := s.flistNum - 1 }

end FsNotifier

/-- The loop of `_fs_notifier_time_out` over the list. -/
def sendList : List ℕ → FsNotifier → FsNotifier
  | [], s => s
  | k :: ks, s => sendList ks (((s.aktSendFileStatus k).listDel k).safeFree k)

/-- `_fs_notifier_time_out`. -/
def fsNotifierTimeOut (s : FsNotifier) : FsNotifier :=
  let s := sendList s.flist s
  s.aktSendFileStatus s.fnode

/-- `fs_notifier_create_node`. -/
def fsNotifierCreateNode (filename : List Char) (s : FsNotifier) : FsNotifier :=
  let k := s.nodes.length
  let s : FsNotifier := { s with
    nodes := s.nodes ++ [some ⟨s.ch, filename, 0, .new, false⟩]
    fnode := k
    phase := .recording }
  (s.aktSendFileStatus k).modifyNode k fun n => { n with sendNew := true, status := .store }

/-- `fs_notifier_add_node_to_list`. -/
def fsNotifierAddNodeToList (s : FsNotifier) : FsNotifier :=
  { s.modifyNode s.fnode fun n => { n with status := .finish } with
    flist := s.fnode :: s.flist
    flistNum := s.flistNum + 1
    phase := .splitting }

/-- `fs_notifier_update_file_size`. -/
def fsNotifierUpdateFileSize (sizeByte : ℕ) (s : FsNotifier) : FsNotifier :=
  s.modifyNode s.fnode fun n => { n with nbyte := (n.nbyte + sizeByte) % 2 ^ 64 }

/-- `fs_notifier_exit`, which waits for the list until the time is up. -/
def fsNotifierExit (exitOk timeUp : Bool) (s : FsNotifier) : FsNotifier :=
  if 0 < s.flistNum ∧ timeUp = false then s
  else
    let s := s.modifyNode s.fnode fun n => { n with status := if exitOk then .over else .unOver }
    { (s.aktSendFileStatus s.fnode).safeFree s.fnode with phase := .exited }

/-- `fs_notifier_init`. -/
def fsNotifierInit (ch : ℕ) (filename : List Char) : FsNotifier :=
  fsNotifierCreateNode filename ⟨ch, [], [], 0, 0, .splitting, [], false⟩

/-- A step of the timer or of the save thread. -/
inductive NotifierStep where
  | timeOut
  | createNode (filename : List Char)
  | addNodeToList
  | updateFileSize (sizeByte : ℕ)
  | exit (exitOk timeUp : Bool)

/-- The state behind a step. Another node is created behind `fs_notifier_add_node_to_list` only, and
the other steps of the thread are not made there; nothing happens behind the exit, where the timer
is cancelled. -/
def notifierStep (s : FsNotifier) : NotifierStep → FsNotifier
  | .timeOut => if s.phase = .exited then s else fsNotifierTimeOut s
  | .createNode filename => if s.phase = .splitting then fsNotifierCreateNode filename s else s
  | .addNodeToList => if s.phase = .recording then fsNotifierAddNodeToList s else s
  | .updateFileSize sizeByte =>
      if s.phase = .recording then fsNotifierUpdateFileSize sizeByte s else s
  | .exit exitOk timeUp => if s.phase = .recording then fsNotifierExit exitOk timeUp s else s

/-! ### Right notifications -/

/-- `FINISH`, `OVER` and `UN_OVER`. -/
def FileNotifyStatus.isFinal : FileNotifyStatus → Bool
  | .new | .store => false
  | .finish | .unOver | .over => true

namespace FsNotifier

variable (s : FsNotifier)

/-- The statuses that were sent of the file `k`. -/
def statuses (k : ℕ) : List FileNotifyStatus :=
  (s.sent.filter fun x => x.file == k).map FileStatus.state

/-- The files of which a final status was sent, in the order of sending. -/
def finals : List ℕ := (s.sent.filter fun x => x.state.isFinal).map FileStatus.file

/-- The final status of the file `k`: `FINISH` when another file comes behind it. -/
def FinalStatus (k : ℕ) (st : FileNotifyStatus) : Prop :=
  if k + 1 < s.nodes.length then st = .finish else st = .over ∨ st = .unOver

/-- Every file is announced with one `NEW`, some `STORE`s and, at the end of the recording at the
latest, one final status; the final statuses are sent in the order of the files; and no freed node
is read. -/
structure Right : Prop where
  announced : ∀ k < s.nodes.length, ∃ m,
    s.statuses k = .new :: List.replicate m .store ∧ s.phase ≠ .exited ∨
      ∃ st, s.FinalStatus k st ∧ s.statuses k = .new :: (List.replicate m .store ++ [st])
  ordered : s.finals <+: List.range s.nodes.length
  readFreed : s.readFreed = false

end FsNotifier

/-- No tick comes between `fs_notifier_add_node_to_list` and `fs_notifier_create_node` or finds two
files in the list, and the time of the exit is not up before the list is empty. -/
def Timely (s : FsNotifier) : NotifierStep → Prop
  | .timeOut => s.phase = .exited ∨ s.phase = .recording ∧ s.flist.length ≤ 1
  | .exit _ timeUp => s.phase = .recording → timeUp = true → s.flist = []
  | _ => True

/-! ### What is sent -/

section Sent

variable {s t : FsNotifier} {xs : List FileStatus} {k : ℕ}

theorem statuses_append (h : t.sent = s.sent ++ xs) (k : ℕ) :
    t.statuses k = s.statuses k ++ (xs.filter fun x => x.file == k).map FileStatus.state := by
  rw [FsNotifier.statuses, h, List.filter_append, List.map_append]
  rfl

theorem finals_append (h : t.sent = s.sent ++ xs) :
    t.finals = s.finals ++ (xs.filter fun x => x.state.isFinal).map FileStatus.file := by
  rw [FsNotifier.finals, h, List.filter_append, List.map_append]
  rfl

theorem statuses_concat {x : FileStatus} (h : t.sent = s.sent ++ [x]) (k : ℕ) :
    t.statuses k = if x.file = k then s.statuses k ++ [x.state] else s.statuses k := by
  rw [statuses_append h, List.filter_cons]
  simp only [beq_iff_eq]
  split_ifs
  · rfl
  · exact List.append_nil _

theorem finals_concat {x : FileStatus} (h : t.sent = s.sent ++ [x]) :
    t.finals = if x.state.isFinal then s.finals ++ [x.file] else s.finals := by
  rw [finals_append h, List.filter_cons]
  split_ifs
  · rfl
  · exact List.append_nil _

theorem aktSendFileStatus_eq {n : FsNode} (h : s.node k = some n) :
    s.aktSendFileStatus k =
      { s with sent := s.sent ++ [⟨k, n.ch, n.filename, n.nbyte, n.status⟩] } := by
  rw [FsNotifier.aktSendFileStatus, h]

theorem node_modifyNode (s : FsNotifier) (k i : ℕ) (f : FsNode → FsNode) :
    (s.modifyNode k f).node i = if k = i then (s.node i).map f else s.node i := by
  rw [FsNotifier.node, FsNotifier.modifyNode, List.getElem?_modify]
  split_ifs with hki
  · rw [FsNotifier.node]
    cases s.nodes[i]? with
    | none => rfl
    | some n => rfl
  · simp [FsNotifier.node]

theorem node_append {o : Option FsNode} (h : t.nodes = s.nodes ++ [o]) (k : ℕ) :
    t.node k = if k = s.nodes.length then o else s.node k := by
  rw [FsNotifier.node, FsNotifier.node, h]
  split_ifs with hk
  · rw [hk, List.getElem?_concat_length]
    rfl
  · rw [List.getElem?_append]
    split_ifs with hlt
    · rfl
    · rw [List.getElem?_eq_none (by rw [List.length_singleton]; omega),
        List.getElem?_eq_none (Nat.le_of_not_lt hlt)]

theorem createNode_eq (filename : List Char) (s : FsNotifier) :
    fsNotifierCreateNode filename s = { s with
      nodes := s.nodes ++ [some ⟨s.ch, filename, 0, .store, true⟩]
      fnode := s.nodes.length
      phase := .recording
      sent := s.sent ++ [⟨s.nodes.length, s.ch, filename, 0, .new⟩] } := by
  let n : FsNode := ⟨s.ch, filename, 0, .new, false⟩
  let t : FsNotifier := { s with
    nodes := s.nodes ++ [some n]
    fnode := s.nodes.length
    phase := .recording }
  have hnode : t.node s.nodes.length = some n := (node_append rfl _).trans (if_pos rfl)
  rw [fsNotifierCreateNode, aktSendFileStatus_eq hnode]
  simp [t, n, FsNotifier.modifyNode, List.modify_eq_take_drop]

/-- The loop sends the nodes of the list in its order and frees them. -/
theorem sendList_eq {ks : List ℕ} (hflist : s.flist = ks) (hks : ks.Nodup)
    (hnode : ∀ k ∈ ks, ∃ n, s.node k = some n ∧ n.status = .finish) :
    ∃ xs nodes, sendList ks s = { s with
        nodes := nodes
        flist := []
        flistNum := s.flistNum - ks.length
        sent := s.sent ++ xs } ∧
      xs.map FileStatus.file = ks ∧ (∀ x ∈ xs, x.state = .finish) ∧
      nodes.length = s.nodes.length ∧ (∀ i ∈ ks, nodes[i]?.join = none) ∧
      ∀ i ∉ ks, nodes[i]? = s.nodes[i]? := by
  induction ks generalizing s with
  | nil =>
    refine ⟨[], s.nodes, ?_, rfl, by simp, rfl, by simp, fun _ _ => rfl⟩
    rw [sendList, List.append_nil, List.length_nil, Nat.sub_zero, ← hflist]
  | cons k ks ih =>
    obtain ⟨hk, hks⟩ := List.nodup_cons.mp hks
    obtain ⟨n, hn, hfinish⟩ := hnode k List.mem_cons_self
    let x : FileStatus := ⟨k, n.ch, n.filename, n.nbyte, n.status⟩
    let t : FsNotifier := { s with
      nodes := s.nodes.set k none
      flist := ks
      flistNum := s.flistNum - 1
      sent := s.sent ++ [x] }
    have hstep : sendList (k :: ks) s = sendList ks t := by
      rw [sendList, aktSendFileStatus_eq hn, FsNotifier.listDel, FsNotifier.safeFree, hflist,
        List.erase_cons_head]
    obtain ⟨xs, nodes, ht, hfiles, hstates, hlen, hfreed, hrest⟩ := ih (s := t) rfl hks (by
      intro i hi
      have hne : k ≠ i := fun heq => hk (heq ▸ hi)
      obtain ⟨m, hm, hm'⟩ := hnode i (List.mem_cons_of_mem k hi)
      exact ⟨m, by rwa [FsNotifier.node, List.getElem?_set_ne hne], hm'⟩)
    refine ⟨x :: xs, nodes, ?_, congrArg _ hfiles, ?_, ?_, ?_, ?_⟩
    · rw [hstep, ht, List.length_cons, Nat.add_comm, ← Nat.sub_sub, List.append_cons]
    · intro y hy
      cases List.mem_cons.mp hy with
      | inl hx => exact hx ▸ hfinish
      | inr hxs => exact hstates y hxs
    · rw [hlen, List.length_set]
    · intro i hi
      cases List.mem_cons.mp hi with
      | inl hik =>
        rw [hik, hrest k hk, List.getElem?_set_self']
        cases s.nodes[k]? with
        | none => rfl
        | some n => rfl
      | inr hiks => exact hfreed i hiks
    · intro i hi
      obtain ⟨hik, hi⟩ := not_or.mp (List.mem_cons.not.mp hi)
      rw [hrest i hi, List.getElem?_set_ne (Ne.symm hik)]

end Sent

/-! ### Runs -/

/-- One `NEW`, some `STORE`s and perhaps the final status were sent of the file `k`. -/
def Told (s : FsNotifier) (k : ℕ) : Prop := ∃ m,
  k ∉ s.finals ∧ s.statuses k = .new :: List.replicate m .store ∨
    k ∈ s.finals ∧ ∃ st, s.FinalStatus k st ∧
      s.statuses k = .new :: (List.replicate m .store ++ [st])

theorem finalStatus_of_length {s t : FsNotifier} (hlen : t.nodes.length = s.nodes.length) {k : ℕ}
    {st : FileNotifyStatus} (h : s.FinalStatus k st) : t.FinalStatus k st := by
  rw [FsNotifier.FinalStatus, hlen]
  exact h

/-- What is sent of a file when nothing more is sent of it. -/
theorem Told.of_same {s t : FsNotifier} {k : ℕ} (h : Told s k)
    (hstatuses : t.statuses k = s.statuses k) (hfinals : k ∈ t.finals ↔ k ∈ s.finals)
    (hfinal : k ∈ s.finals → ∀ st, s.FinalStatus k st → t.FinalStatus k st) : Told t k := by
  obtain ⟨m, ⟨hnot, hold⟩ | ⟨hmem, st, hst, hold⟩⟩ := h
  · exact ⟨m, .inl ⟨hfinals.not.mpr hnot, hstatuses.trans hold⟩⟩
  · exact ⟨m, .inr ⟨hfinals.mpr hmem, st, hfinal hmem st hst, hstatuses.trans hold⟩⟩

/-- A further `STORE`. -/
theorem Told.store {s t : FsNotifier} {k : ℕ} (h : Told s k)
    (hstatuses : t.statuses k = s.statuses k ++ [.store]) (hs : k ∉ s.finals) (ht : k ∉ t.finals) :
    Told t k := by
  obtain ⟨m, ⟨-, hold⟩ | ⟨hmem, -⟩⟩ := h
  · refine ⟨m + 1, .inl ⟨ht, ?_⟩⟩
    rw [hstatuses, hold, List.replicate_succ']
    rfl
  · exact absurd hmem hs

/-- The final status. -/
theorem Told.final {s t : FsNotifier} {k : ℕ} {st : FileNotifyStatus} (h : Told s k)
    (hstatuses : t.statuses k = s.statuses k ++ [st]) (hs : k ∉ s.finals) (ht : k ∈ t.finals)
    (hst : t.FinalStatus k st) : Told t k := by
  obtain ⟨m, ⟨-, hold⟩ | ⟨hmem, -⟩⟩ := h
  · refine ⟨m, .inr ⟨ht, st, hst, ?_⟩⟩
    rw [hstatuses, hold]
    rfl
  · exact absurd hmem hs

/-- One more status is sent, of another file or of a file that has no final status yet. -/
theorem Told.concat {s t : FsNotifier} {k : ℕ} {x : FileStatus} (h : Told s k)
    (hsent : t.sent = s.sent ++ [x])
    (hfinal : k ∈ s.finals → ∀ st, s.FinalStatus k st → t.FinalStatus k st)
    (hx : x.file = k → k ∉ s.finals ∧
      (x.state = .store ∨ x.state.isFinal = true ∧ t.FinalStatus k x.state)) : Told t k := by
  have hstatuses := statuses_concat hsent k
  have hfinals := finals_concat hsent
  split_ifs at hstatuses with hk
  · obtain ⟨hnot, hstore | ⟨hstate, hst⟩⟩ := hx hk
    · rw [hstore] at hstatuses hfinals
      exact h.store hstatuses hnot (hfinals ▸ hnot)
    · rw [if_pos hstate] at hfinals
      refine h.final hstatuses hnot ?_ hst
      rw [hfinals, hk]
      exact List.mem_append_right _ List.mem_cons_self
  · refine h.of_same hstatuses ?_ hfinal
    rw [hfinals]
    split_ifs
    · rw [List.mem_append, List.mem_singleton, or_iff_left (Ne.symm hk)]
    · rfl

/-- What keeps the notifications right: the final statuses that were sent and the list, from its
end, are the files in their order, the current node is the last one, and it is not sent finally
before the exit. -/
structure Orderly (s : FsNotifier) : Prop where
  fnode : s.nodes.length = s.fnode + 1
  pending : s.finals ++ s.flist.reverse =
    List.range (if s.phase = .recording then s.fnode else s.fnode + 1)
  finals_lt : s.phase ≠ .exited → ∀ k ∈ s.finals, k < s.fnode
  listed : ∀ k ∈ s.flist, ∃ n, s.node k = some n ∧ n.status = .finish
  current : s.phase = .recording → ∃ n, s.node s.fnode = some n ∧ n.status = .store
  splitting : s.phase = .splitting → s.fnode ∈ s.flist
  told : ∀ k ≤ s.fnode, Told s k
  sent_le : ∀ x ∈ s.sent, x.file ≤ s.fnode
  flistNum : s.flistNum = s.flist.length
  exited : s.phase = .exited → s.flist = []
  readFreed : s.readFreed = false

namespace Orderly

variable {s : FsNotifier}

theorem right (h : Orderly s) : s.Right where
  announced := by
    intro k hk
    rw [h.fnode] at hk
    obtain ⟨m, ⟨hnot, hstatuses⟩ | ⟨-, hfinal⟩⟩ := h.told k (Nat.le_of_lt_succ hk)
    · refine ⟨m, .inl ⟨hstatuses, fun hexited => hnot ?_⟩⟩
      -- behind the exit all files have a final status
      have hpending := h.pending
      rw [h.exited hexited, List.reverse_nil, List.append_nil, hexited,
        if_neg (by decide)] at hpending
      rw [hpending]
      exact List.mem_range.mpr hk
    · exact ⟨m, .inr hfinal⟩
  ordered := by
    refine (List.prefix_append _ s.flist.reverse).trans ?_
    rw [h.pending, h.fnode]
    split_ifs
    · rw [List.range_succ]
      exact List.prefix_append _ _
    · exact List.prefix_refl _
  readFreed := h.readFreed

theorem finals_nodup (h : Orderly s) : (s.finals ++ s.flist.reverse).Nodup := by
  rw [h.pending]
  exact List.nodup_range

theorem flist_nodup (h : Orderly s) : s.flist.Nodup :=
  List.nodup_reverse.mp (List.Nodup.of_append_right h.finals_nodup)

theorem mem_flist_lt (h : Orderly s) (hphase : s.phase = .recording) {k : ℕ} (hk : k ∈ s.flist) :
    k < s.fnode := by
  have hmem : k ∈ s.finals ++ s.flist.reverse := List.mem_append_right _ (List.mem_reverse.mpr hk)
  rw [h.pending, if_pos hphase] at hmem
  exact List.mem_range.mp hmem

theorem mem_flist_le (h : Orderly s) {k : ℕ} (hk : k ∈ s.flist) : k ≤ s.fnode := by
  have hmem : k ∈ s.finals ++ s.flist.reverse := List.mem_append_right _ (List.mem_reverse.mpr hk)
  rw [h.pending, List.mem_range] at hmem
  split_ifs at hmem <;> omega

/-- Nothing is sent of a file before its node is created. -/
theorem statuses_eq_nil (h : Orderly s) {k : ℕ} (hk : s.fnode < k) : s.statuses k = [] := by
  rw [FsNotifier.statuses, List.filter_eq_nil_iff.mpr, List.map_nil]
  intro y hy
  have hle := h.sent_le y hy
  rw [beq_iff_eq]
  omega

/-- A new node. -/
theorem createNode {filename : List Char} (h : Orderly s) (hphase : s.phase = .splitting) :
    Orderly (fsNotifierCreateNode filename s) := by
  rw [createNode_eq]
  let n : FsNode := ⟨s.ch, filename, 0, .store, true⟩
  let x : FileStatus := ⟨s.nodes.length, s.ch, filename, 0, .new⟩
  let t : FsNotifier := { s with
    nodes := s.nodes ++ [some n]
    fnode := s.nodes.length
    phase := .recording
    sent := s.sent ++ [x] }
  have hfinals : t.finals = s.finals := finals_concat (x := x) rfl
  have hlt := h.finals_lt (by rw [hphase]; decide)
  have hlen := h.fnode
  have hnode (k : ℕ) : t.node k = if k = s.nodes.length then some n else s.node k :=
    node_append rfl k
  have hnodes : t.nodes.length = s.nodes.length + 1 := List.length_append
  refine ⟨hnodes, ?_, ?_, ?_, fun _ => ⟨n, ?_, rfl⟩, ?_, ?_, ?_, h.flistNum, ?_, h.readFreed⟩
  · have hpending := h.pending
    rw [hphase, if_neg (by decide), ← hlen] at hpending
    exact (congrArg (· ++ s.flist.reverse) hfinals).trans hpending
  · intro _ k hk
    rw [hfinals] at hk
    exact (hlt k hk).trans (hlen ▸ Nat.lt_succ_self _)
  · intro k hk
    have hle := h.mem_flist_le hk
    rw [hnode, if_neg (by omega)]
    exact h.listed k hk
  · exact (hnode _).trans (if_pos rfl)
  · intro hsplitting
    cases hsplitting
  · intro k (hk : k ≤ s.nodes.length)
    rcases Nat.eq_or_lt_of_le hk with rfl | hold
    · have hstatuses := statuses_concat (s := s) (t := t) (x := x) rfl s.nodes.length
      rw [if_pos rfl, h.statuses_eq_nil (by omega)] at hstatuses
      refine ⟨0, .inl ⟨?_, hstatuses⟩⟩
      rw [hfinals]
      exact fun hmem => absurd (hlt _ hmem) (by omega)
    · refine (h.told k (by omega)).concat (t := t) rfl ?_ fun hxk => absurd hxk hold.ne'
      -- a file with a final status is not the last one
      intro hmem st hst
      have hfnode := hlt k hmem
      rw [FsNotifier.FinalStatus, if_pos (by omega)] at hst
      rw [FsNotifier.FinalStatus, hnodes, if_pos (by omega)]
      exact hst
  · intro y hy
    rcases List.mem_append.mp hy with hold | hnew
    · exact (h.sent_le y hold).trans (by dsimp only; omega)
    · rw [List.mem_singleton.mp hnew]
  · intro hexited
    cases hexited

/-- The current node goes into the list. -/
theorem addNodeToList (h : Orderly s) (hphase : s.phase = .recording) :
    Orderly (fsNotifierAddNodeToList s) := by
  obtain ⟨n, hn, -⟩ := h.current hphase
  have hlen : (fsNotifierAddNodeToList s).nodes.length = s.nodes.length := List.length_modify ..
  have hnode (k : ℕ) : (fsNotifierAddNodeToList s).node k =
      if s.fnode = k then (s.node k).map fun n => { n with status := .finish } else s.node k :=
    node_modifyNode s s.fnode k _
  have hpending := h.pending
  rw [if_pos hphase] at hpending
  refine ⟨hlen.trans h.fnode, ?_, ?_, ?_, ?_, fun _ => List.mem_cons_self, ?_, h.sent_le,
    congrArg (· + 1) h.flistNum, ?_, h.readFreed⟩
  · have hreverse : (s.fnode :: s.flist).reverse = s.flist.reverse ++ [s.fnode] :=
      List.reverse_cons
    have hrange : List.range (s.fnode + 1) = s.finals ++ (s.flist.reverse ++ [s.fnode]) := by
      rw [List.range_succ, ← hpending, List.append_assoc]
    exact (congrArg (s.finals ++ ·) hreverse).trans hrange.symm
  · exact fun _ => h.finals_lt (by rw [hphase]; decide)
  · intro k hk
    rw [hnode]
    rcases List.mem_cons.mp hk with hnew | hold
    · rw [if_pos hnew.symm, hnew, hn]
      exact ⟨_, rfl, rfl⟩
    · rw [if_neg (h.mem_flist_lt hphase hold).ne']
      exact h.listed k hold
  · intro hrecording
    cases hrecording
  · exact fun k hk => (h.told k hk).of_same rfl Iff.rfl fun _ _ => finalStatus_of_length hlen
  · intro hexited
    cases hexited

theorem updateFileSize {sizeByte : ℕ} (h : Orderly s) (hphase : s.phase = .recording) :
    Orderly (fsNotifierUpdateFileSize sizeByte s) := by
  have hlen : (fsNotifierUpdateFileSize sizeByte s).nodes.length = s.nodes.length :=
    List.length_modify ..
  have hnode (k : ℕ) : (fsNotifierUpdateFileSize sizeByte s).node k =
      if s.fnode = k then (s.node k).map fun n => { n with nbyte := (n.nbyte + sizeByte) % 2 ^ 64 }
      else s.node k :=
    node_modifyNode s s.fnode k _
  refine ⟨hlen.trans h.fnode, h.pending, h.finals_lt, ?_, ?_, h.splitting, ?_, h.sent_le,
    h.flistNum, h.exited, h.readFreed⟩
  · intro k hk
    rw [hnode, if_neg (h.mem_flist_lt hphase hk).ne']
    exact h.listed k hk
  · intro _
    obtain ⟨n, hn, hstore⟩ := h.current hphase
    refine ⟨{ n with nbyte := (n.nbyte + sizeByte) % 2 ^ 64 }, ?_, hstore⟩
    exact (hnode s.fnode).trans ((if_pos rfl).trans (congrArg _ hn))
  · exact fun k hk => (h.told k hk).of_same rfl Iff.rfl fun _ _ => finalStatus_of_length hlen

/-- A tick sends the list and frees it, and then sends the current node. -/
theorem timeOut_eq (h : Orderly s) (hphase : s.phase = .recording) :
    ∃ xs y nodes, fsNotifierTimeOut s = { s with
        nodes := nodes
        flist := []
        flistNum := 0
        sent := s.sent ++ (xs ++ [y]) } ∧
      xs.map FileStatus.file = s.flist ∧ (∀ x ∈ xs, x.state = .finish) ∧ y.file = s.fnode ∧
      y.state = .store ∧ nodes.length = s.nodes.length ∧ nodes[s.fnode]? = s.nodes[s.fnode]? := by
  obtain ⟨xs, nodes, ht, hfiles, hstates, hlen, -, hrest⟩ :=
    sendList_eq rfl h.flist_nodup h.listed
  have hcurrent : nodes[s.fnode]? = s.nodes[s.fnode]? :=
    hrest _ fun hmem => (h.mem_flist_lt hphase hmem).false
  obtain ⟨n, hn, hstore⟩ := h.current hphase
  have hnode : (sendList s.flist s).node s.fnode = some n := by
    rw [ht, FsNotifier.node, hcurrent]
    exact hn
  refine ⟨xs, ⟨s.fnode, n.ch, n.filename, n.nbyte, n.status⟩, nodes, ?_, hfiles, hstates, rfl,
    hstore, hlen, hcurrent⟩
  have hfnode : (sendList s.flist s).fnode = s.fnode := by rw [ht]
  rw [fsNotifierTimeOut, hfnode, aktSendFileStatus_eq hnode, ht, h.flistNum, Nat.sub_self,
    List.append_assoc]

/-- The final statuses behind a tick. -/
theorem finals_timeOut (h : Orderly s) (hphase : s.phase = .recording) :
    (fsNotifierTimeOut s).finals = s.finals ++ s.flist := by
  obtain ⟨xs, y, nodes, ht, hfiles, hstates, -, hstore, -⟩ := h.timeOut_eq hphase
  have hsent : (fsNotifierTimeOut s).sent = s.sent ++ (xs ++ [y]) := by rw [ht]
  have hall : xs.filter (fun x => x.state.isFinal) = xs := by
    refine List.filter_eq_self.mpr fun x hx => ?_
    rw [hstates x hx]
    rfl
  rw [finals_append hsent, List.filter_append, hall, List.filter_singleton, hstore, ← hfiles]
  simp [FileNotifyStatus.isFinal]

/-- While at most one file is in the list, the files with a final status and the listed one are
those before the current one. -/
theorem finals_append_flist (h : Orderly s) (hphase : s.phase = .recording)
    (hone : s.flist.length ≤ 1) : s.finals ++ s.flist = List.range s.fnode := by
  have hreverse : s.flist.reverse = s.flist := by
    match hflist : s.flist with
    | [] => rfl
    | [k] => rfl
    | k :: i :: ks =>
      rw [hflist] at hone
      simp at hone
  have hpending := h.pending
  rwa [if_pos hphase, hreverse] at hpending

/-- What is sent of a file with a tick that finds at most one file in the list. -/
theorem told_timeOut (h : Orderly s) (hphase : s.phase = .recording) (hone : s.flist.length ≤ 1)
    {k : ℕ} (hk : k ≤ s.fnode) : Told (fsNotifierTimeOut s) k := by
  have hall := h.finals_append_flist hphase hone
  have hfinals := h.finals_timeOut hphase
  obtain ⟨xs, y, nodes, ht, hfiles, hstates, hfile, hstore, hlen, -⟩ := h.timeOut_eq hphase
  -- the list first, then the current node
  let u : FsNotifier := { s with sent := s.sent ++ xs }
  have hsent : (fsNotifierTimeOut s).sent = u.sent ++ [y] := by rw [ht, ← List.append_assoc]
  have hlisted : Told u k := by
    rcases xs with _ | ⟨x, _ | ⟨x', xs⟩⟩
    · have hnone : u = s := by simp [u]
      exact hnone ▸ h.told k hk
    · have hmem : x.file ∈ s.flist := hfiles ▸ List.mem_cons_self
      have hfinish := hstates x List.mem_cons_self
      refine (h.told k hk).concat rfl (fun _ _ hst => hst) fun hkx => ?_
      refine ⟨fun hold => ?_, .inr ⟨hfinish ▸ rfl, ?_⟩⟩
      · exact List.disjoint_of_nodup_append h.finals_nodup hold
          (List.mem_reverse.mpr (hkx ▸ hmem))
      · have hlt := h.mem_flist_lt hphase hmem
        have hlast : u.nodes.length = s.fnode + 1 := h.fnode
        rw [hfinish, FsNotifier.FinalStatus, if_pos (by omega)]
    · rw [← hfiles] at hone
      simp at hone
  refine hlisted.concat hsent (fun _ _ => finalStatus_of_length (by rw [ht]; exact hlen)) ?_
  intro hcur
  refine ⟨fun hmem => ?_, .inl hstore⟩
  -- no final status of the current node is sent
  have hu : u.finals = s.finals ++ s.flist := by
    rw [← hfinals, finals_concat hsent, hstore]
    rfl
  rw [hu, hall, List.mem_range, ← hcur, hfile] at hmem
  exact hmem.false

/-- A tick that finds at most one file in the list. -/
theorem timeOut (h : Orderly s) (hphase : s.phase = .recording) (hone : s.flist.length ≤ 1) :
    Orderly (fsNotifierTimeOut s) := by
  have htold : ∀ k ≤ s.fnode, Told (fsNotifierTimeOut s) k := fun _ =>
    h.told_timeOut hphase hone
  have hfinals := (h.finals_timeOut hphase).trans (h.finals_append_flist hphase hone)
  obtain ⟨xs, y, nodes, ht, hfiles, -, hfile, -, hlen, hcurrent⟩ := h.timeOut_eq hphase
  rw [ht] at htold hfinals ⊢
  refine ⟨hlen.trans h.fnode, ?_, ?_, ?_, ?_, ?_, htold, ?_, rfl, fun _ => rfl, h.readFreed⟩
  · rw [hfinals, if_pos hphase]
    exact List.append_nil _
  · intro _ k hk
    rw [hfinals] at hk
    exact List.mem_range.mp hk
  · exact fun k hk => absurd hk List.not_mem_nil
  · intro _
    obtain ⟨n, hn, hstore⟩ := h.current hphase
    exact ⟨n, (congrArg Option.join hcurrent).trans hn, hstore⟩
  · exact fun hsplitting => absurd (hphase.symm.trans hsplitting) (by decide)
  · intro x hx
    rcases List.mem_append.mp hx with hold | hnew
    · exact h.sent_le x hold
    rcases List.mem_append.mp hnew with hxs | hy
    · exact h.mem_flist_le (hfiles ▸ List.mem_map_of_mem hxs)
    · rw [List.mem_singleton.mp hy, hfile]

/-- The exit sends the last status. -/
theorem exit_eq (exitOk : Bool) {timeUp : Bool} (h : Orderly s) (hphase : s.phase = .recording)
    (hwait : ¬ (0 < s.flistNum ∧ timeUp = false)) :
    ∃ y nodes, fsNotifierExit exitOk timeUp s = { s with
        nodes := nodes
        sent := s.sent ++ [y]
        phase := .exited } ∧
      y.file = s.fnode ∧ y.state = (if exitOk then .over else .unOver) ∧
      nodes.length = s.nodes.length := by
  obtain ⟨n, hn, -⟩ := h.current hphase
  let st : FileNotifyStatus := if exitOk then .over else .unOver
  have hnode : (s.modifyNode s.fnode fun n => { n with status := st }).node s.fnode =
      some { n with status := st } := by
    rw [node_modifyNode, if_pos rfl, hn]
    rfl
  refine ⟨⟨s.fnode, n.ch, n.filename, n.nbyte, st⟩,
    (s.nodes.modify s.fnode (Option.map fun n => { n with status := st })).set s.fnode none,
    ?_, rfl, rfl, ?_⟩
  · rw [fsNotifierExit, if_neg hwait]
    dsimp only
    have hfnode : (s.modifyNode s.fnode fun n => { n with status := st }).fnode = s.fnode := rfl
    rw [hfnode, aktSendFileStatus_eq hnode]
    rfl
  · rw [List.length_set, List.length_modify]

/-- The final statuses behind the exit. -/
theorem finals_exit (exitOk : Bool) {timeUp : Bool} (h : Orderly s) (hphase : s.phase = .recording)
    (hwait : ¬ (0 < s.flistNum ∧ timeUp = false)) :
    (fsNotifierExit exitOk timeUp s).finals = s.finals ++ [s.fnode] := by
  obtain ⟨y, nodes, ht, hfile, hstate, -⟩ := h.exit_eq exitOk hphase hwait
  have hsent : (fsNotifierExit exitOk timeUp s).sent = s.sent ++ [y] := by rw [ht]
  have hfinal : y.state.isFinal = true := by
    rw [hstate]
    cases exitOk with
    | false => rfl
    | true => rfl
  rw [finals_concat hsent, if_pos hfinal, hfile]

/-- The exit with an empty list. -/
theorem exit {exitOk timeUp : Bool} (h : Orderly s) (hphase : s.phase = .recording)
    (hflist : s.flist = []) : Orderly (fsNotifierExit exitOk timeUp s) := by
  have hwait : ¬ (0 < s.flistNum ∧ timeUp = false) := by
    rw [h.flistNum, hflist]
    exact fun hwait => absurd hwait.1 (Nat.lt_irrefl 0)
  have hfinals := h.finals_exit exitOk hphase hwait
  have hall := h.finals_append_flist hphase (by rw [hflist]; exact Nat.zero_le 1)
  rw [hflist, List.append_nil] at hall
  obtain ⟨y, nodes, ht, hfile, hstate, hlen⟩ := h.exit_eq exitOk hphase hwait
  rw [ht] at hfinals ⊢
  refine ⟨hlen.trans h.fnode, ?_, fun hrun => absurd rfl hrun, ?_, ?_, ?_, ?_, ?_, h.flistNum,
    fun _ => hflist, h.readFreed⟩
  · dsimp only
    rw [hfinals, hall, if_neg (by decide), List.range_succ, hflist]
    exact List.append_nil _
  · rw [hflist]
    exact fun k hk => absurd hk List.not_mem_nil
  · intro hrecording
    cases hrecording
  · intro hsplitting
    cases hsplitting
  · intro k hk
    refine (h.told k hk).concat rfl (fun _ _ => finalStatus_of_length hlen) fun hcur => ?_
    have hlast : nodes.length = s.fnode + 1 := hlen.trans h.fnode
    refine ⟨?_, .inr ?_⟩
    · rw [hall, List.mem_range, ← hcur, hfile]
      exact Nat.lt_irrefl _
    · rw [FsNotifier.FinalStatus, if_neg (by dsimp only; omega), hstate]
      cases exitOk with
      | false => exact ⟨rfl, .inr rfl⟩
      | true => exact ⟨rfl, .inl rfl⟩
  · intro x hx
    rcases List.mem_append.mp hx with hold | hnew
    · exact h.sent_le x hold
    · rw [List.mem_singleton.mp hnew, hfile]

/-! ### Untimely steps -/

theorem eq_range_of_prefix {l : List ℕ} {n : ℕ} (h : l <+: List.range n) :
    l = List.range l.length := by
  have hle : l.length ≤ n := h.length_le.trans List.length_range.le
  have htake := List.prefix_iff_eq_take.mp h
  rwa [List.take_range, Nat.min_eq_left hle] at htake

/-- A list without duplicates that is its own reverse has no two elements. -/
theorem length_le_one_of_reverse {l : List ℕ} (hl : l.Nodup) (h : l.reverse = l) :
    l.length ≤ 1 := by
  by_contra hlen
  have hpos : 0 < l.length := by omega
  have hends : l[0] = l[l.length - 1] := by
    have hfirst := List.getElem_reverse (l := l) (i := 0) (by rw [List.length_reverse]; exact hpos)
    simp only [h] at hfirst
    exact hfirst
  have hindex := (hl.getElem_inj_iff).mp hends
  omega

/-- A tick before the next node is created reads the node that it has freed. -/
theorem not_right_splitting (h : Orderly s) (hphase : s.phase = .splitting) :
    ¬ (fsNotifierTimeOut s).Right := by
  obtain ⟨xs, nodes, ht, -, -, -, hfreed, -⟩ := sendList_eq rfl h.flist_nodup h.listed
  have hnone : (sendList s.flist s).node s.fnode = none := by
    rw [ht]
    exact hfreed _ (h.splitting hphase)
  have hfnode : (sendList s.flist s).fnode = s.fnode := by rw [ht]
  intro hright
  have hread := hright.readFreed
  rw [fsNotifierTimeOut, hfnode, FsNotifier.aktSendFileStatus, hnone] at hread
  cases hread

/-- Two files in the list are sent in the wrong order. -/
theorem not_right_two (h : Orderly s) (hphase : s.phase = .recording) (htwo : 1 < s.flist.length) :
    ¬ (fsNotifierTimeOut s).Right := by
  intro hright
  have hpending := h.pending
  rw [if_pos hphase] at hpending
  have hordered := eq_range_of_prefix hright.ordered
  have hlen : (s.finals ++ s.flist).length = s.fnode := by
    rw [← List.length_range (n := s.fnode), ← hpending, List.length_append, List.length_append,
      List.length_reverse]
  rw [h.finals_timeOut hphase, hlen, ← hpending] at hordered
  have hreverse : s.flist = s.flist.reverse := List.append_cancel_left hordered
  exact absurd (length_le_one_of_reverse h.flist_nodup hreverse.symm) (Nat.not_le.mpr htwo)

/-- An exit leaves the files that are still in the list without a final status. -/
theorem not_right_exit (h : Orderly s) (hphase : s.phase = .recording) {exitOk : Bool}
    (hflist : s.flist ≠ []) : ¬ (fsNotifierExit exitOk true s).Right := by
  intro hright
  have hpending := h.pending
  rw [if_pos hphase] at hpending
  have hordered := eq_range_of_prefix hright.ordered
  have hwait : ¬ (0 < s.flistNum ∧ true = false) := fun hwait => Bool.noConfusion hwait.2
  rw [h.finals_exit exitOk hphase hwait, List.length_append, List.length_singleton,
    List.range_succ] at hordered
  -- the last file stands where the first one of the list belongs
  have hlast : s.fnode = s.finals.length :=
    (List.singleton_inj.mp (List.append_inj_right' hordered rfl))
  have hlen := congrArg List.length hpending
  rw [List.length_append, List.length_reverse, List.length_range] at hlen
  exact hflist (List.length_eq_zero_iff.mp (by omega))

end Orderly

/-- A step keeps the order when it is timely. -/
theorem Orderly.notifierStep {s : FsNotifier} {a : NotifierStep} (h : Orderly s)
    (htimely : Timely s a) : Orderly (notifierStep s a) := by
  cases a with
  | timeOut =>
    rw [Fs.notifierStep]
    split_ifs with hexited
    · exact h
    · obtain hphase | ⟨hphase, hone⟩ := htimely
      · exact absurd hphase hexited
      · exact h.timeOut hphase hone
  | createNode filename =>
    rw [Fs.notifierStep]
    split_ifs with hphase
    · exact h.createNode hphase
    · exact h
  | addNodeToList =>
    rw [Fs.notifierStep]
    split_ifs with hphase
    · exact h.addNodeToList hphase
    · exact h
  | updateFileSize sizeByte =>
    rw [Fs.notifierStep]
    split_ifs with hphase
    · exact h.updateFileSize hphase
    · exact h
  | exit exitOk timeUp =>
    rw [Fs.notifierStep]
    split_ifs with hphase
    · by_cases hflist : s.flist = []
      · exact h.exit hphase hflist
      · -- the exit waits
        have hwait : 0 < s.flistNum ∧ timeUp = false := by
          refine ⟨?_, eq_false_of_ne_true fun hup => hflist (htimely hphase hup)⟩
          rw [h.flistNum]
          exact List.length_pos_iff.mpr hflist
        rw [fsNotifierExit, if_pos hwait]
        exact h
    · exact h

/-- Only a timely step leaves the notifications right. -/
theorem Orderly.right_iff {s : FsNotifier} {a : NotifierStep} (h : Orderly s) :
    (Fs.notifierStep s a).Right ↔ Timely s a := by
  refine ⟨fun hright => ?_, fun htimely => (h.notifierStep htimely).right⟩
  cases a with
  | timeOut =>
    by_contra htimely
    obtain ⟨hexited, hone⟩ := not_or.mp htimely
    rw [Fs.notifierStep, if_neg hexited] at hright
    match hphase : s.phase with
    | .exited => exact hexited hphase
    | .splitting => exact h.not_right_splitting hphase hright
    | .recording =>
      refine h.not_right_two hphase ?_ hright
      exact Nat.lt_of_not_le fun hle => hone ⟨hphase, hle⟩
  | exit exitOk timeUp =>
    intro hphase hup
    by_contra hflist
    rw [Fs.notifierStep, if_pos hphase, hup] at hright
    exact h.not_right_exit hphase hflist hright
  | createNode filename => exact trivial
  | addNodeToList => exact trivial
  | updateFileSize sizeByte => exact trivial

theorem orderly_init (ch : ℕ) (filename : List Char) : Orderly (fsNotifierInit ch filename) := by
  rw [fsNotifierInit, createNode_eq]
  refine ⟨rfl, rfl, fun _ _ hk => absurd hk List.not_mem_nil,
    fun _ hk => absurd hk List.not_mem_nil, fun _ => ⟨_, rfl, rfl⟩,
    fun hsplitting => SavePhase.noConfusion hsplitting, fun k hk => ?_,
    fun x hx => ?_, rfl, fun _ => rfl, rfl⟩
  · obtain rfl : k = 0 := Nat.le_zero.mp hk
    exact ⟨0, .inl ⟨List.not_mem_nil, rfl⟩⟩
  · rw [List.mem_singleton.mp hx]

/-- The notifications of a recording are right in every state exactly when all its ticks and its
exit are timely. -/
theorem right_iff_timely (ch : ℕ) (filename : List Char) (as : List NotifierStep) :
    (∀ pre, pre <+: as → (pre.foldl notifierStep (fsNotifierInit ch filename)).Right) ↔
      ∀ pre a, pre ++ [a] <+: as →
        Timely (pre.foldl notifierStep (fsNotifierInit ch filename)) a :=
  forall_states_iff_of (orderly_init ch filename) (fun _ => Orderly.right)
    (fun _ _ => Orderly.notifierStep) (fun _ _ => Orderly.right_iff) as

/-- A tick between `fs_notifier_add_node_to_list` and `fs_notifier_create_node`, two split files
before one tick, and an exit whose wait runs out. -/
theorem not_right_tick :
    ¬ ([NotifierStep.addNodeToList, .timeOut].foldl notifierStep (fsNotifierInit 0 ['a'])).Right ∧
      ¬ ([NotifierStep.addNodeToList, .createNode ['b'], .addNodeToList, .createNode ['c'],
        .timeOut].foldl notifierStep (fsNotifierInit 0 ['a'])).Right ∧
      ¬ ([NotifierStep.addNodeToList, .createNode ['b'], .exit true true].foldl notifierStep
        (fsNotifierInit 0 ['a'])).Right := by
  refine ⟨fun h => ?_, fun h => ?_, fun h => ?_⟩
  · have hread := h.readFreed
    exact absurd hread (by decide)
  · have hordered := h.ordered
    exact absurd hordered (by decide)
  · have hordered := h.ordered
    exact absurd hordered (by decide)

end M57Card.Fs
