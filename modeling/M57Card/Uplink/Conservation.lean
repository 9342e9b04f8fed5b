import Mathlib.Algebra.BigOperators.Group.Finset.Basic
import Mathlib.Data.BitVec
import M57Card.Uplink.Pipeline
import M57Card.Uplink.SentBytes

/-!
# The bytes of the keys and the bytes of the clients

There are two accounts of the uplink data: the bytes of each key, which `_send_vec_entry` increases
by the length of a vector before it sends it, and the bytes sent and not sent of each client, which
it increases by the result of the sender and by what is missing. Along a run of rounds with
well-formed blocks the two accounts agree, as numbers of 64 bits, after every step of every thread,
whatever the calls of `send` do, as long as they return, and as long as the threads are done with
each round at its end.

The rounds are those of a build with `TCP_DATA_SEND_BY_THREADS` set to `1`, which `card10g_57` does
not set. A step of a thread is not divided: `spm_hash_set_sendbytes` adds to the bytes of a key
without a lock, so where two threads add to one key at the same time, an addition can be lost, and
the key has recorded less than the clients. The accounts agree in the runs in which the additions to
a key do not overlap.

## Main results

* `stat_of_sendVecEntry` : a vector is counted in full for the client.
* `bytesOfAll_eq_sum` : the two accounts agree.
-/

namespace M57Card.Uplink

open M57

/-! ### The account of the keys -/

section Keys

variable {V : Type} (t : SpmHash V)

/-- The bytes of all keys, as a sum of numbers of 64 bits. -/
def keyBytes : BitVec 64 := (t.entries.entries.map fun e => BitVec.ofNat 64 e.2.sendBytes).sum

theorem ofNat_bytesOfAll : BitVec.ofNat 64 (bytesOfAll t) = keyBytes t := by
  have hsum (l : List (Σ _ : ℤ, HashData V)) :
      BitVec.ofNat 64 (l.map fun e => e.2.sendBytes).sum =
        (l.map fun e => BitVec.ofNat 64 e.2.sendBytes).sum := by
    induction l with
    | nil => rfl
    | cons e l ih => rw [List.map_cons, List.sum_cons, BitVec.ofNat_add, ih, List.map_cons,
        List.sum_cons]
  have hmod (n : ℕ) : BitVec.ofNat 64 (n % 2 ^ 64) = BitVec.ofNat 64 n :=
    BitVec.eq_of_toNat_eq (by rw [BitVec.toNat_ofNat, BitVec.toNat_ofNat, Nat.mod_mod])
  rw [bytesOfAll, hmod, CacheHash.forEach, List.map_map, List.map_reverse, List.sum_reverse]
  exact hsum _

variable {t}

theorem keyBytes_add {key : ℤ} {d : HashData V} (h : t.find key = none) (hd : d.sendBytes = 0) :
    keyBytes (t.add key d) = keyBytes t := by
  have hnot : key ∉ t.entries.entries.keys := by
    have hkeys := (CacheHash.mem_keys_iff t key).not.mpr (not_not.mpr h)
    exact hkeys
  rw [keyBytes, CacheHash.add, AList.entries_insert, List.kerase_of_notMem_keys hnot,
    List.map_cons, List.sum_cons, hd]
  exact zero_add _

theorem keyBytes_modify {key : ℤ} {f : HashData V → HashData V}
    (hf : ∀ d, (f d).sendBytes = d.sendBytes) : keyBytes (t.modify key f) = keyBytes t := by
  rw [keyBytes, CacheHash.modify, List.map_map, keyBytes]
  refine congrArg List.sum (List.map_congr_left fun e _ => congrArg (BitVec.ofNat 64) ?_)
  change (if e.1 = key then f e.2 else e.2).sendBytes = _
  split_ifs
  · exact hf e.2
  · rfl

/-- Filing a vector does not touch the account. -/
theorem keyBytes_renewAll (es : List (ℤ × V)) : keyBytes (renewAll t es) = keyBytes t := by
  induction es generalizing t with
  | nil => rfl
  | cons e es ih =>
    refine (ih (t := (spmHashRenew t e.1 e.2).1)).trans ?_
    rcases spmHashRenew_cases t e.1 e.2 with ⟨-, hnone, heq⟩ | ⟨d, -, -, heq⟩ | ⟨-, heq⟩
    · rw [heq, keyBytes_add hnone rfl]
    · rw [heq, keyBytes_modify (f := fun d => { d with data := d.data ++ [e.2] }) fun _ => rfl]
    · rw [heq]

theorem keyBytes_spmClearAllHash : keyBytes (spmClearAllHash t) = keyBytes t := by
  have hfold (ks : List ℤ) (t : SpmHash V) :
      keyBytes (ks.foldl spmHashClearVecData t) = keyBytes t := by
    induction ks generalizing t with
    | nil => rfl
    | cons k ks ih => exact (ih _).trans (keyBytes_modify fun _ => rfl)
  exact hfold _ t

/-- The bytes of a vector are added once: a key has one entry. -/
theorem keyBytes_spmHashSetSendbytes {key : ℤ} (hkey : key ∈ t.entries.keys) (bytes : ℕ) :
    keyBytes (spmHashSetSendbytes t key bytes) = keyBytes t + BitVec.ofNat 64 bytes := by
  have hadd (d : HashData V) : BitVec.ofNat 64 ((d.sendBytes + bytes) % 2 ^ 64) =
      BitVec.ofNat 64 d.sendBytes + BitVec.ofNat 64 bytes := by
    rw [← BitVec.ofNat_add]
    exact BitVec.eq_of_toNat_eq (by rw [BitVec.toNat_ofNat, BitVec.toNat_ofNat, Nat.mod_mod])
  -- the entry of the key is met once
  have hall (l : List (Σ _ : ℤ, HashData V)) (hl : l.NodupKeys) :
      (l.map fun e => BitVec.ofNat 64 (if e.1 = key then
          (e.2.sendBytes + bytes) % 2 ^ 64 else e.2.sendBytes)).sum =
        (l.map fun e => BitVec.ofNat 64 e.2.sendBytes).sum +
          if key ∈ l.keys then BitVec.ofNat 64 bytes else 0 := by
    induction l with
    | nil => exact (add_zero _).symm
    | cons e l ih =>
      obtain ⟨hnot, hl⟩ := List.nodupKeys_cons.mp hl
      rw [List.map_cons, List.sum_cons, List.map_cons, List.sum_cons, ih hl, List.keys_cons]
      by_cases he : e.1 = key
      · have hmem : key ∈ e.1 :: l.keys := he ▸ List.mem_cons_self
        rw [if_pos he, if_neg (he ▸ hnot), if_pos hmem, hadd, add_zero, add_right_comm]
      · have hmem : key ∈ e.1 :: l.keys ↔ key ∈ l.keys := by
          rw [List.mem_cons, or_iff_right (Ne.symm he)]
        rw [if_neg he, ← add_assoc]
        simp only [hmem]
  have hsum := hall t.entries.entries t.entries.nodupKeys
  have hin : key ∈ t.entries.entries.keys := hkey
  rw [if_pos hin] at hsum
  refine Eq.trans ?_ hsum
  rw [keyBytes, spmHashSetSendbytes, CacheHash.modify, List.map_map]
  refine congrArg List.sum (List.map_congr_left fun e _ => congrArg (BitVec.ofNat 64) ?_)
  change (if e.1 = key then { e.2 with sendBytes := (e.2.sendBytes + bytes) % 2 ^ 64 }
    else e.2 : HashData V).sendBytes = _
  split_ifs <;> rfl

end Keys

/-! ### The account of a client -/

/-- The bytes sent and not sent. -/
def ClientStat.total (st : ClientStat) : BitVec 64 := st.send + st.sendErr

section Client

variable {m : Mem} {cards : CardsStatus} {socket : ℕ → ℕ → List SendResult} {lim stop : ℕ}

/-- Frames that the sender can follow are a sequence of frames with gaps. -/
theorem framesFrom_of_reads {sub : NetSub} {e : ℕ} {qs : List ℕ}
    (h : Linked m cards lim sub e qs stop) (hreads : Reads m e qs) {p : ℕ}
    (hp : IsSendFrame m p) (he : p + frameLen m p = e) : FramesFrom m p (p :: qs) stop := by
  induction h generalizing p with
  | nil e =>
    subst he
    exact .last hp
  | @cons e q stop qs hq hrest ih =>
    subst he
    obtain ⟨-, hnext, hmax, -⟩ := nextFrame_eq_inr hq
    obtain ⟨j, rfl, -, hsync, hbefore⟩ := nextHeader_eq_some.mp hnext
    obtain ⟨hnear, hmin, hreads⟩ := hreads
    exact .cons hp (by omega) hbefore (ih hreads ⟨hsync, hmin, hmax⟩ rfl)

/-- The result of the sender for a vector of a well-formed block is a number of bytes of the
vector. -/
theorem ret_dataSendPackage {b : Block} (hb : b.WellFormed cards m) {s : Segment}
    (hs : s ∈ vectors m cards b.header b.bytes.length)
    (hreturn : ∀ i n, ∃ rv, tcpSendDataToClient (socket i n) n = some rv) :
    ∃ n ≤ s.size, (dataSendPackage m socket s.start s.size).ret = some (n : ℤ) := by
  obtain ⟨-, hlt, hstart, -⟩ := eq_segmentAt_of_mem_vectors hs
  obtain ⟨hreads, hend⟩ := hb.vectors_eq.2.2 s hs
  have hlinked := linked_of_mem_vectors hs
  have hne := List.ne_nil_of_mem (start_mem_frames hs)
  have hsize := start_add_size hs
  have hstop := (stop_of_mem_vectors hs).1
  cases hframes : s.frames with
  | nil => exact absurd hframes hne
  | cons p qs =>
    rw [hframes] at hreads hlinked
    obtain ⟨-, hmin, hreads⟩ := hreads
    cases hlinked with
    | cons hp hrest =>
      obtain ⟨-, hnext, hmax, -⟩ := nextFrame_eq_inr hp
      rw [nextHeader_of_isSync hstart.1 hlt] at hnext
      obtain rfl := Option.some.inj hnext
      have hfrom := framesFrom_of_reads hrest hreads ⟨hstart.1, hmin, hmax⟩ rfl
      have haccount := dataSendPackage_account hfrom hreturn
        (show _ ≤ s.start + s.size by omega) (by omega)
      rw [haccount]
      exact ⟨_, Nat.sub_le _ _, rfl⟩

/-- **A vector is counted in full** for the client, when the sender returns a number of its
bytes. -/
theorem stat_of_sendVecEntry {t : SpmHash Iovec} {key : ℤ} {v : Iovec} {st : ClientStat}
    {r : VecEntry} (h : sendVecEntry m socket t key v st = some r) (hne : v.len ≠ 0)
    (hlen : v.len < 2 ^ 31) {n : ℕ} (hn : n ≤ v.len)
    (hret : (dataSendPackage m socket v.base v.len).ret = some (n : ℤ)) :
    r.stat.total = st.total + BitVec.ofNat 64 v.len ∧
      r.table = spmHashSetSendbytes t key v.len := by
  rw [sendVecEntry, if_neg hne] at h
  dsimp only at h
  rw [hret, Option.map_some] at h
  obtain rfl := Option.some.inj h
  refine ⟨?_, rfl⟩
  have hsum : BitVec.ofNat 64 v.len = BitVec.ofNat 64 n + BitVec.ofNat 64 (v.len - n) := by
    rw [← BitVec.ofNat_add, Nat.add_sub_cancel' hn]
  have hsend : (if (0 : ℤ) < n then st.sendAdd n else st) =
      { st with send := st.send + BitVec.ofNat 64 n } := by
    split_ifs with hpos
    · rw [ClientStat.sendAdd, setWidth_ofInt (by omega)]
    · obtain rfl : n = 0 := by omega
      exact congrArg (fun send => { st with send := send }) (add_zero _).symm
  have herr (st : ClientStat) : (if 0 < (v.len : ℤ) - n ∧ (0 : ℤ) ≤ n then
      st.sendErrAdd (v.len - n) else st) =
        { st with sendErr := st.sendErr + BitVec.ofNat 64 (v.len - n) } := by
    have hsub : (v.len : ℤ) - n = (v.len - n : ℕ) := by omega
    rw [hsub]
    split_ifs with hpos
    · rw [ClientStat.sendErrAdd, setWidth_ofInt (by omega)]
    · have hzero : v.len - n = 0 := by omega
      rw [hzero]
      exact congrArg (fun err => { st with sendErr := err }) (add_zero _).symm
  dsimp only
  rw [hsend, herr, hsum, ClientStat.total, ClientStat.total]
  dsimp only
  rw [add_add_add_comm]

end Client

/-! ### Runs -/

/-- The bytes of the keys are the bytes sent and not sent of some clients. -/
def Balanced (ids : Finset ℕ) (s : UplinkSys) : Prop :=
  BitVec.ofNat 64 (bytesOfAll s.channel.table) = ∑ id ∈ ids, (s.consumers id).stat.total

/-- The visits of some steps are visits of the clients `ids`, and their calls of `send` return. -/
def VisitsOf (ids : Finset ℕ) (steps : List RoundStep) : Prop :=
  ∀ id socket, RoundStep.visit id socket ∈ steps →
    id ∈ ids ∧ ∀ i n, ∃ rv, tcpSendDataToClient (socket i n) n = some rv

section Runs

variable {cards : CardsStatus} {ids : Finset ℕ} {s : UplinkSys}

/-- The vectors that a thread has still to visit are among those that it had. -/
theorem todo_suffix (id : ℕ) (s : UplinkSys) (x : RoundStep) :
    ((s.roundStep x).consumers id).todo <:+ (s.consumers id).todo := by
  cases x with
  | command op => exact List.suffix_refl _
  | visit id' socket =>
    change ((s.visit id' socket).consumers id).todo <:+ _
    by_cases hid : id' = id
    · subst hid
      rcases visit_cases s id' socket with
        ⟨heq, -⟩ | ⟨e, rest, htodo, ⟨-, r, -, heq⟩ | ⟨-, heq⟩⟩
      · rw [heq]
      · rw [heq, consumers_setConsumer_self, htodo]
        exact List.suffix_cons e rest
      · rw [heq, consumers_setConsumer_self, htodo]
        exact List.suffix_cons e rest
    · rw [consumers_visit_of_ne hid]

/-- A vector that the sender treats as one of a well-formed block: its key has an entry, and the
result of the sender is a number of its bytes. -/
def Accountable (s : UplinkSys) (e : ℤ × Iovec) : Prop :=
  e.1 ∈ s.channel.table.entries.keys ∧ e.2.len ≠ 0 ∧ e.2.len < 2 ^ 31 ∧
    ∀ socket, (∀ i n, ∃ rv, tcpSendDataToClient (socket i n) n = some rv) →
      ∃ n ≤ e.2.len, (dataSendPackage s.mem socket e.2.base e.2.len).ret = some (n : ℤ)

/-- **One step keeps the balance**: what a visit adds to the account of the key it adds to the
account of the client. -/
theorem Balanced.roundStep (h : Balanced ids s) {x : RoundStep} (hx : VisitsOf ids [x])
    (htodo : ∀ id ∈ ids, ∀ e ∈ (s.consumers id).todo, Accountable s e) :
    Balanced ids (s.roundStep x) := by
  cases x with
  | command op => exact h
  | visit id socket =>
    obtain ⟨hid, hreturn⟩ := hx id socket (List.mem_singleton_self _)
    change Balanced ids (s.visit id socket)
    rcases visit_cases s id socket with ⟨heq, -⟩ | ⟨e, rest, hcons, ⟨-, r, hsend, heq⟩ | ⟨-, heq⟩⟩
    · rwa [heq]
    · obtain ⟨hkey, hne, hlt, hret⟩ := htodo id hid e (hcons ▸ List.mem_cons_self)
      obtain ⟨n, hn, hret⟩ := hret socket hreturn
      obtain ⟨htotal, htable⟩ := stat_of_sendVecEntry hsend hne hlt hn hret
      have hsum : ∑ id' ∈ ids, ((s.visit id socket).consumers id').stat.total =
          ∑ id' ∈ ids, ((s.consumers id').stat.total +
            if id' = id then BitVec.ofNat 64 e.2.len else 0) := by
        refine Finset.sum_congr rfl fun id' _ => ?_
        by_cases hne : id' = id
        · subst hne
          rw [heq, consumers_setConsumer_self, htotal, if_pos rfl]
        · rw [heq, consumers_setConsumer_of_ne _ (Ne.symm hne), if_neg hne, add_zero]
      rw [Balanced, hsum, Finset.sum_add_distrib, Finset.sum_ite_eq' ids id, if_pos hid, ← h, heq,
        ofNat_bytesOfAll, ofNat_bytesOfAll]
      change keyBytes r.table = _
      rw [htable, keyBytes_spmHashSetSendbytes hkey]
    · have hstat (id' : ℕ) : ((s.visit id socket).consumers id').stat = (s.consumers id').stat := by
        by_cases hne : id' = id
        · subst hne
          rw [heq, consumers_setConsumer_self]
        · rw [heq, consumers_setConsumer_of_ne _ (Ne.symm hne)]
      rw [Balanced]
      simp only [hstat]
      rw [heq]
      exact h

/-- Some steps keep the balance. -/
theorem Balanced.foldl_roundStep {steps : List RoundStep} (h : Balanced ids s)
    (hsteps : VisitsOf ids steps)
    (htodo : ∀ id ∈ ids, ∀ e ∈ (s.consumers id).todo, Accountable s e) :
    Balanced ids (steps.foldl UplinkSys.roundStep s) := by
  induction steps generalizing s with
  | nil => exact h
  | cons x steps ih =>
    have hx : VisitsOf ids [x] := fun id socket hmem =>
      hsteps id socket (List.mem_cons.mpr (.inl (List.mem_singleton.mp hmem)))
    refine ih (h.roundStep hx htodo)
      (fun id socket hmem => hsteps id socket (List.mem_cons_of_mem _ hmem)) fun id hid e he => ?_
    obtain ⟨hkey, hne, hlt, hret⟩ := htodo id hid e ((todo_suffix id s x).subset he)
    obtain ⟨hmem, htable⟩ := roundStep_frame s x
    refine ⟨by rwa [htable.keys], hne, hlt, fun socket hreturn => ?_⟩
    rw [hmem]
    exact hret socket hreturn

namespace Round

variable {r : Round} {keys : Finset ℤ}

/-- Reading the blocks keeps the balance, and the vectors of the round are accountable. -/
theorem balanced_start (hr : r.WellFormed cards) (hs : Ready keys s.channel.table)
    (hkeys : (keys ∪ (r.blocks.flatMap Block.keys).toFinset).card ≤ MAX_SPM_RANDOM_ENTRIES)
    (hidle : ∀ id ∈ ids, (s.consumers id).todo = []) (h : Balanced ids s) :
    Balanced ids (r.start cards s) ∧
      ∀ id ∈ ids, ∀ e ∈ ((r.start cards s).consumers id).todo, Accountable (r.start cards s) e := by
  constructor
  · rw [Balanced, ofNat_bytesOfAll, table_start, keyBytes_renewAll, ← ofNat_bytesOfAll]
    exact h
  · intro id hid e he
    by_cases hwoken : id ∈ r.woken
    swap
    · -- the thread keeps waiting
      have hnil : ((r.start cards s).consumers id).todo = [] :=
        (if_neg fun h => hwoken h.1).trans (hidle id hid)
      rw [hnil] at he
      exact absurd he List.not_mem_nil
    have hin : e.1 ∈ (r.start cards s).channel.table.entries.keys := by
      obtain ⟨p, hp, hpe⟩ := List.mem_flatMap.mp (todo_start hwoken (hidle id hid) ▸ he)
      obtain ⟨v, -, rfl⟩ := List.mem_map.mp hpe
      obtain ⟨x, hx, rfl⟩ := List.mem_map.mp hp
      exact List.mem_map_of_mem (List.mem_reverse.mp hx)
    have hentry := mem_entries_of_mem_todo hr hs hkeys hwoken (hidle id hid) he
    obtain ⟨b, hb, x, hx, rfl⟩ := mem_entries.mp hentry
    have hblock := hr.blocks b hb
    have hsize : x.size ≤ b.bytes.length := (mem_vectors.mp hx).2.2
    have hmax : b.bytes.length ≤ 4194304 := hblock.size
    refine ⟨hin, (dataSendPackage_entries hr hentry).2.1, ?_, fun socket hreturn =>
      ret_dataSendPackage hblock hx hreturn⟩
    change x.size < 2 ^ 31
    omega

/-- A round keeps the balance at each of its steps. -/
theorem balanced_after (hr : r.WellFormed cards) (hs : Ready keys s.channel.table)
    (hkeys : (keys ∪ (r.blocks.flatMap Block.keys).toFinset).card ≤ MAX_SPM_RANDOM_ENTRIES)
    (hidle : ∀ id ∈ ids, (s.consumers id).todo = []) (h : Balanced ids s)
    {steps : List RoundStep} (hsteps : VisitsOf ids steps) :
    Balanced ids (r.after cards s steps) := by
  obtain ⟨hstart, htodo⟩ := balanced_start hr hs hkeys hidle h
  exact hstart.foldl_roundStep hsteps htodo

end Round

/-- The keys of a run are those of its parts. -/
theorem keysOf_append (rounds rounds' : List Round) :
    keysOf (rounds ++ rounds') = keysOf rounds ∪ keysOf rounds' := by
  rw [keysOf, List.flatMap_append, List.toFinset_append]
  rfl

theorem keysOf_singleton (r : Round) :
    keysOf [r] = (r.blocks.flatMap Block.keys).toFinset := by
  rw [keysOf, List.flatMap_singleton]

/-- Rounds keep the balance, when the threads are done with each of them at its end. -/
theorem balanced_runRounds (hnew : s.channel.table = spmHashCreate) (h : Balanced ids s)
    {rounds : List Round} (hwf : ∀ r ∈ rounds, r.WellFormed cards)
    (hkeys : (keysOf rounds).card ≤ MAX_SPM_RANDOM_ENTRIES)
    (hvisits : ∀ r ∈ rounds, VisitsOf ids r.steps)
    (hdone : ∀ id ∈ ids, DoneWith cards s id rounds) :
    Balanced ids (runRounds cards s rounds) := by
  induction rounds using List.reverseRecOn with
  | nil => exact h
  | append_singleton rounds r ih =>
    have hmem : r ∈ rounds ++ [r] := List.mem_append_right _ (List.mem_singleton_self r)
    rw [keysOf_append, keysOf_singleton] at hkeys
    have hready := ready_runRounds hnew fun r' hr' => hwf r' (List.mem_append_left _ hr')
    have hbefore := ih (fun r' hr' => hwf r' (List.mem_append_left _ hr'))
      ((Finset.card_le_card Finset.subset_union_left).trans hkeys)
      (fun r' hr' => hvisits r' (List.mem_append_left _ hr'))
      fun id hid pre hpre => hdone id hid pre (hpre.trans (List.prefix_append _ _))
    have hafter := Round.balanced_after (hwf r hmem) hready hkeys
      (fun id hid => hdone id hid rounds (List.prefix_append _ _)) hbefore (hvisits r hmem)
    rw [runRounds_append]
    change Balanced ids (r.after cards (runRounds cards s rounds) r.steps).refresh
    rw [Balanced, ofNat_bytesOfAll]
    change keyBytes (spmClearAllHash _) = _
    rw [keyBytes_spmClearAllHash, ← ofNat_bytesOfAll]
    exact hafter

/-- **The two accounts agree** along a run of rounds with well-formed blocks and at most
`MAX_SPM_RANDOM_ENTRIES` keys, after every step of every round whose threads have been done with the
earlier rounds, whatever the calls of `send` do as long as they return: the bytes of all keys are
the bytes sent and not sent of all clients. -/
theorem bytesOfAll_eq_sum (hnew : s.channel.table = spmHashCreate)
    (hstat : ∀ id ∈ ids, (s.consumers id).stat = {})
    {rounds pre post : List Round} {r : Round} (heq : rounds = pre ++ r :: post)
    (hwf : ∀ r ∈ rounds, r.WellFormed cards)
    (hkeys : (keysOf rounds).card ≤ MAX_SPM_RANDOM_ENTRIES)
    (hvisits : ∀ r ∈ rounds, VisitsOf ids r.steps) (hdone : ∀ id ∈ ids, DoneWith cards s id pre)
    {steps : List RoundStep} (hsteps : steps <+: r.steps) :
    BitVec.ofNat 64 (bytesOfAll (r.after cards (runRounds cards s pre) steps).channel.table) =
      ∑ id ∈ ids, ((r.after cards (runRounds cards s pre) steps).consumers id).stat.total := by
  subst heq
  have hstart : Balanced ids s := by
    rw [Balanced, hnew, Finset.sum_eq_zero fun id hid => by rw [hstat id hid]; rfl]
    rfl
  have hmem : r ∈ pre ++ r :: post := List.mem_append_right _ List.mem_cons_self
  have hpre : ∀ r' ∈ pre, r' ∈ pre ++ r :: post := fun r' => List.mem_append_left _
  have hsub : keysOf pre ∪ (r.blocks.flatMap Block.keys).toFinset ⊆
      keysOf (pre ++ r :: post) := by
    rw [← keysOf_singleton, ← keysOf_append, List.append_cons pre r post,
      keysOf_append (pre ++ [r])]
    exact Finset.subset_union_left
  have hcard := (Finset.card_le_card hsub).trans hkeys
  have hbefore := balanced_runRounds hnew hstart (fun r' hr' => hwf r' (hpre r' hr'))
    ((Finset.card_le_card Finset.subset_union_left).trans hcard)
    (fun r' hr' => hvisits r' (hpre r' hr')) hdone
  exact Round.balanced_after (hwf r hmem)
    (ready_runRounds hnew fun r' hr' => hwf r' (hpre r' hr')) hcard
    (fun id hid => hdone id hid pre List.prefix_rfl) hbefore
    fun id socket hvisit => hvisits r hmem id socket (hsteps.subset hvisit)

end Runs

/-- Two clients that have subscribed to function one. -/
def twoSubscribers : UplinkSys where
  mem := Mem.ofList []
  pairs :=
    { host := { env := Env.reliable, cards := fun slot => decide (slot = 5),
                peers := [{ id := 0, addr := 1, port := 1, hash := [53] },
                  { id := 1, addr := 1, port := 2, hash := [53] }] } }

/-- The round of two clients of which the second is not connected. -/
def halfSent : Round :=
  { twoFunctions with
    woken := {0, 1}
    steps := [.visit 0 fun _ n => [.sent n], .visit 1 fun _ _ => [.notConnected],
      .visit 1 fun _ _ => [.notConnected], .visit 0 fun _ n => [.sent n]] }

theorem visitsOf_halfSent : VisitsOf {0, 1} halfSent.steps := by
  have hsent (n : ℕ) : ∃ rv, tcpSendDataToClient [.sent n] n = some rv :=
    ⟨_, (fullSends_sent : FullSends fun _ n => [.sent n]) 0 n⟩
  have hlost (n : ℕ) : ∃ rv, tcpSendDataToClient [.notConnected] n = some rv :=
    tcpSendLoop_append_notConnected [] n 0
  intro id socket h
  simp only [halfSent, List.mem_cons, RoundStep.visit.injEq, List.not_mem_nil, or_false] at h
  rcases h with ⟨rfl, rfl⟩ | ⟨rfl, rfl⟩ | ⟨rfl, rfl⟩ | ⟨rfl, rfl⟩
  · exact ⟨by decide, fun _ => hsent⟩
  · exact ⟨by decide, fun _ => hlost⟩
  · exact ⟨by decide, fun _ => hlost⟩
  · exact ⟨by decide, fun _ => hsent⟩

/-- Behind the first visit of the second of two rounds the key has recorded three frames, two of
them sent to the first client and one not sent to the second. -/
theorem bytesOfAll_eq_sum_halfSent :
    BitVec.ofNat 64 (bytesOfAll (halfSent.after CardsStatus.slotFive
        (runRounds CardsStatus.slotFive twoSubscribers [halfSent])
        (halfSent.steps.take 1)).channel.table) =
      ∑ id ∈ ({0, 1} : Finset ℕ), ((halfSent.after CardsStatus.slotFive
        (runRounds CardsStatus.slotFive twoSubscribers [halfSent])
        (halfSent.steps.take 1)).consumers id).stat.total ∧
    bytesOfAll (halfSent.after CardsStatus.slotFive
        (runRounds CardsStatus.slotFive twoSubscribers [halfSent])
        (halfSent.steps.take 1)).channel.table = 72 := by
  have hwf : ∀ r ∈ [halfSent, halfSent], r.WellFormed CardsStatus.slotFive := by
    have hone : halfSent.WellFormed CardsStatus.slotFive :=
      ⟨wellFormed_twoFunctions.blocks, wellFormed_twoFunctions.vectors⟩
    exact List.forall_mem_cons.mpr ⟨hone, List.forall_mem_singleton.mpr hone⟩
  have hvisits : ∀ r ∈ [halfSent, halfSent], VisitsOf {0, 1} r.steps :=
    List.forall_mem_cons.mpr ⟨visitsOf_halfSent, List.forall_mem_singleton.mpr visitsOf_halfSent⟩
  have hdone : ∀ id ∈ ({0, 1} : Finset ℕ),
      DoneWith CardsStatus.slotFive twoSubscribers id [halfSent] := by
    intro id hid pre hpre
    rcases List.prefix_cons_iff.mp hpre with rfl | ⟨rest, rfl, hrest⟩
    · rfl
    · rw [List.prefix_nil.mp hrest]
      rcases Finset.mem_insert.mp hid with rfl | hid
      · decide +kernel
      · rw [Finset.mem_singleton.mp hid]
        decide +kernel
  refine ⟨?_, by decide +kernel⟩
  exact @bytesOfAll_eq_sum CardsStatus.slotFive {0, 1} twoSubscribers rfl (fun _ _ => rfl)
    [halfSent, halfSent] [halfSent] [] halfSent rfl hwf (by decide) hvisits hdone _
    (List.take_prefix 1 _)

end M57Card.Uplink
