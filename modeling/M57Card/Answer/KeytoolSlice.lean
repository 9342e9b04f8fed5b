import M57Card.Receive.Phases

/-!
# The part of a frame that becomes a key file

A write of the key tool is recognised by its outer length, at least 300 bytes, and by its inner
header (`m57.c`, lines 121–165). The frame from its reserved field on becomes the body of a command,
and `_write_keytool_handle` (lines 974–987) stores a slice of that body: it starts 18 bytes behind
the start of the inner header and its length is the *inner* length field less ten. Nothing compares
the two length fields. The slice lies in the body exactly when the inner length is at least ten and
leaves 16 bytes of the outer one.

## Main definitions

* `collectedBody` : the body that the parser has collected for a frame.
* `StoresInside` : whatever the command writes to a key file lies in its body.

## Main results

* `storesInside_iff` : the inner lengths with which a write stays in its body.
-/

namespace M57Card.M57

open Net Bytes

/-- The body of the command at the start of a buffer, once all of it has been received. -/
def collectedBody (r : HeaderResult Ctx) : List UInt8 :=
  (r.buf.drop r.headLen).take r.request.contentLength

/-- Whatever the command with this body writes to a key file lies in the body. -/
def StoresInside (body : List UInt8) : Prop :=
  ∀ (cn : Conn Ctx) (path : Path) (start len : ℕ),
    Event.e2promWrite path start len ∈
      newEvents cn.proto.host (executeSwitch body.length body cn).1.proto.host →
    start + len ≤ body.length

section Write

variable {buf : List UInt8} {n : ℕ}

/-- The body made from a write of the key tool: its length, its code and the inner length. -/
theorem collectedBody_of_write (hk : headerKind buf = .keytool CCT_KEY_WRITE_E2PROM n)
    (state : NetTcpState) (req : NetTcpRequest) (c : Ctx) :
    let body := collectedBody (m57ParseHeader buf state req c)
    body.length = n ∧ u16 body 0 = CCT_KEY_WRITE_E2PROM ∧
      (readDataFrame body 2).len = (readDataFrame buf 8).len := by
  intro body
  have hspec := headerKind_spec buf
  have hparse := m57ParseHeader_eq buf state req c
  simp only [hk] at hspec hparse
  obtain ⟨hle, hmin, hn, -⟩ := hspec
  have hdrop : (memcpy buf 6 (le16 CCT_KEY_WRITE_E2PROM)).drop 6 =
      le16 CCT_KEY_WRITE_E2PROM ++ buf.drop 8 := drop_memcpy _ (by omega)
  have hbody : body = (le16 CCT_KEY_WRITE_E2PROM ++ buf.drop 8).take n := by
    rw [← hdrop]
    simp only [body, collectedBody, hparse]
    rfl
  have hlen : (le16 CCT_KEY_WRITE_E2PROM ++ buf.drop 8).length = buf.length - 6 := by
    rw [List.length_append, length_le16, List.length_drop]
    omega
  refine ⟨?_, ?_, ?_⟩
  · rw [hbody, List.length_take, hlen]
    omega
  · rw [hbody, u16_take (by omega), u16_le16_append (by decide)]
  · have hrest : (le16 CCT_KEY_WRITE_E2PROM ++ buf.drop 8).drop 2 = buf.drop 8 := rfl
    change u16 body (2 + 6) = u16 buf (8 + 6)
    rw [hbody, u16_take (by omega), ← u16_drop, hrest, u16_drop]

/-- What a write of the key tool stores: the slice of the body as the code takes it, if it is not
empty and the key file can be opened. -/
theorem newEvents_of_write {body : List UInt8} (hcode : u16 body 0 = CCT_KEY_WRITE_E2PROM)
    (cn : Conn Ctx) :
    newEvents cn.proto.host (executeSwitch body.length body cn).1.proto.host =
      if keytoolPayloadLen body = 0 ∨ cn.proto.host.env.e2promOpenFails cn.proto.host.now then []
      else [.e2promWrite (e2promPath (readDataFrame body 2).pyDistAddr) 20
        (keytoolPayloadLen body)] := by
  have hswitch : executeSwitch body.length body cn =
      ({ cn with proto := writeKeytoolHandle body cn.proto }, -1) := by
    rw [executeSwitch, hcode]
    rfl
  rw [hswitch]
  dsimp only [writeKeytoolHandle]
  split_ifs with hnone
  · exact newEvents_of_append (List.append_nil _).symm
  · exact newEvents_of_append rfl

/-- A write stores bytes of its body only exactly when the slice ends in the body. -/
theorem storesInside_iff_slice {body : List UInt8} (hcode : u16 body 0 = CCT_KEY_WRITE_E2PROM)
    (hlen : 20 ≤ body.length) :
    StoresInside body ↔ 20 + keytoolPayloadLen body ≤ body.length := by
  constructor
  · intro hin
    by_cases hzero : keytoolPayloadLen body = 0
    · rwa [hzero]
    · let cn : Conn Ctx := { proto := .start .reliable fun _ => false }
      have hevents := newEvents_of_write hcode cn
      rw [if_neg (by rintro (h | h); exacts [hzero h, Bool.noConfusion h])] at hevents
      exact hin cn _ _ _ (by rw [hevents]; exact List.mem_singleton_self _)
  · rintro hle cn path start len hmem
    rw [newEvents_of_write hcode] at hmem
    split_ifs at hmem with hnone
    · cases hmem
    · obtain ⟨-, rfl, rfl⟩ := Event.e2promWrite.inj (List.mem_singleton.mp hmem)
      exact hle

/-- A slice with an inner length below ten or too large for the body does not end in the body. -/
theorem keytoolPayloadLen_le_iff {body : List UInt8} (hlen : body.length < 65536) :
    20 + keytoolPayloadLen body ≤ body.length ↔
      10 ≤ (readDataFrame body 2).len ∧ (readDataFrame body 2).len + 10 ≤ body.length := by
  rw [keytoolPayloadLen]
  split_ifs with hten <;> omega

/-- **Slices of key files.** A frame that is classified as a write of the key tool stores bytes of
its own body only exactly when its inner length is at least ten and leaves 16 bytes of the outer
length. -/
theorem storesInside_iff (hk : headerKind buf = .keytool CCT_KEY_WRITE_E2PROM n)
    (state : NetTcpState) (req : NetTcpRequest) (c : Ctx) :
    StoresInside (collectedBody (m57ParseHeader buf state req c)) ↔
      10 ≤ (readDataFrame buf 8).len ∧ (readDataFrame buf 8).len + 16 ≤ (readHeader buf).len := by
  obtain ⟨hlen, hcode, hinner⟩ := collectedBody_of_write hk state req c
  have hspec := headerKind_spec buf
  simp only [hk] at hspec
  obtain ⟨-, hmin, hn, -⟩ := hspec
  have houter : (readHeader buf).len = n + 6 := hn
  have hlt := u16_lt buf 4
  rw [storesInside_iff_slice hcode (by omega), keytoolPayloadLen_le_iff (by omega), hinner, hlen,
    houter]
  omega

end Write

/-- A write of the key tool with an outer length of 300 bytes and a given inner length. -/
def keytoolWriteFrame (inner : ℕ) : List UInt8 :=
  [0x51, 0x57, 0x02, 0x10, 0x2c, 0x01, 0x00, 0x00, 0x00, 0x03, 0x00, 0x00, 0x01, 0x00] ++
    le16 inner ++ [0x02, 0x02, 0x01, 0x00, 0x02, 0x00] ++ List.replicate 278 0

theorem headerKind_keytoolWriteFrame (inner : ℕ) :
    headerKind (keytoolWriteFrame inner) = .keytool CCT_KEY_WRITE_E2PROM 294 := by
  have hlen : (keytoolWriteFrame inner).length = 300 := by
    simp only [keytoolWriteFrame, List.length_append, List.length_replicate, length_le16,
      List.length_cons, List.length_nil]
  have hfields : u16 (keytoolWriteFrame inner) 0 = M57_SYNC_HEADER ∧
      byteAt (keytoolWriteFrame inner) 3 % 16 = M57_DATA_TYPE ∧
      u16 (keytoolWriteFrame inner) 4 = 300 ∧
      (readDataFrame (keytoolWriteFrame inner) 8).pySrcAddr = 0 ∧
      (readDataFrame (keytoolWriteFrame inner) 8).type = 0x0202 ∧
      (readDataFrame (keytoolWriteFrame inner) 8).port = 2 ∧
      (readDataFrame (keytoolWriteFrame inner) 8).srcAddr = 1 := by
    simp only [readDataFrame, keytoolWriteFrame, u16, byteAt, le16, List.cons_append,
      List.nil_append, List.getD_cons_zero, List.getD_cons_succ]
    decide
  obtain ⟨hsync, htype, hfield, hsrc, hinner, hport, hfunc⟩ := hfields
  have hkey : m57ParseKeytoolData (keytoolWriteFrame inner) 300 = some CCT_KEY_WRITE_E2PROM := by
    simp [m57ParseKeytoolData, hsync, hsrc, hinner, hport, hfunc]
  have hne : ¬ M57_DATA_TYPE = M57_CMD_TYPE := by decide
  have hshort : ¬ 300 < HEADER_LEN := by decide
  simp only [headerKind, hlen, hshort, hsync, htype, hne, hfield, lt_irrefl, hkey, if_true,
    if_false, ne_eq, not_true_eq_false]

/-- With an inner length of 284 the slice ends with the frame. -/
theorem storesInside_iff_whole_frame :
    headerKind (keytoolWriteFrame 284) = .keytool CCT_KEY_WRITE_E2PROM 294 ∧
      StoresInside (collectedBody (m57ParseHeader (keytoolWriteFrame 284) .header {}
        (.start .reliable fun _ => false))) :=
  ⟨headerKind_keytoolWriteFrame 284,
    (storesInside_iff (headerKind_keytoolWriteFrame 284) .header {}
      (.start .reliable fun _ => false)).mpr (by decide)⟩

/-- With an inner length of zero the slice has the length `2^64 - 10`. -/
theorem not_storesInside_inner_zero :
    headerKind (keytoolWriteFrame 0) = .keytool CCT_KEY_WRITE_E2PROM 294 ∧
      ¬ StoresInside (collectedBody (m57ParseHeader (keytoolWriteFrame 0) .header {}
        (.start .reliable fun _ => false))) := by
  have hk := headerKind_keytoolWriteFrame 0
  obtain ⟨hlen, hcode, hinner⟩ :=
    collectedBody_of_write hk .header {} (.start .reliable fun _ => false)
  refine ⟨hk, ?_⟩
  rw [storesInside_iff_slice hcode (by omega), keytoolPayloadLen_le_iff (by omega), hinner]
  decide

end M57Card.M57
