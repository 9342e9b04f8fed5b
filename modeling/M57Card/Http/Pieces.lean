import M57Card.Http.Client

/-!
# Requests arrive in pieces

The bytes of a request arrive in pieces of any length, and `uh_client_read_cb` is called for each of
them. What it does is told by the whole text: a line, and what it makes of the client, then the text
behind it; at the end the answer, or a body of which each part is copied when it arrives.

## Main definitions

* `Clean` : a text without the end of a line.
* `BodyLeft` : the client waits for the rest of a body.
* `Takes` : all of a text is read.

## Main results

* `Takes.feed` : the pieces in which a text arrives do not matter.
-/

namespace M57Card.Http

open Rest (Text)

/-- The end of a line. -/
def crlf : Text := ['\r', '\n']

/-! ### Lines -/

/-- A text without the characters that end a line or a string. -/
def Clean (line : Text) : Prop := '\r' ∉ line ∧ '\x00' ∉ line

instance (line : Text) : Decidable (Clean line) := inferInstanceAs (Decidable (_ ∧ _))

theorem findNewline_append {line : Text} (hline : Clean line) (rest : Text) :
    findNewline (line ++ (crlf ++ rest)) = some line.length := by
  obtain ⟨hr, hz⟩ := hline
  induction line with
  | nil => rfl
  | cons c line ih =>
    rw [List.mem_cons, not_or] at hr hz
    rw [List.cons_append, findNewline, if_neg (Ne.symm hz.1), if_neg fun h => hr.1 h.1.symm,
      ih hr.2 hz.2]
    rfl

/-- Where the end of a line has been found, its two characters are there. -/
theorem add_two_le_of_findNewline {buf : Text} {n : ℕ} (h : findNewline buf = some n) :
    n + 2 ≤ buf.length := by
  induction buf generalizing n with
  | nil => exact absurd h (by simp [findNewline])
  | cons c buf ih =>
    rw [findNewline] at h
    split_ifs at h with hz hr
    · obtain rfl := Option.some.inj h
      obtain ⟨t, ht⟩ := List.head?_eq_some_iff.mp hr.2
      rw [ht]
      simp
    · obtain ⟨m, hm, rfl⟩ := Option.map_eq_some_iff.mp h
      have hle := ih hm
      rw [List.length_cons]
      omega

/-- The end of a line stays where it is when more bytes arrive. -/
theorem findNewline_append_of_some {buf : Text} {n : ℕ} (h : findNewline buf = some n)
    (more : Text) : findNewline (buf ++ more) = some n := by
  induction buf generalizing n with
  | nil => exact absurd h (by simp [findNewline])
  | cons c buf ih =>
    rw [List.cons_append]
    rw [findNewline] at h ⊢
    split_ifs at h with hz hr
    · have hhead : (buf ++ more).head? = some '\n' := by
        obtain ⟨t, ht⟩ := List.head?_eq_some_iff.mp hr.2
        rw [ht]
        rfl
      rw [if_neg hz, if_pos ⟨hr.1, hhead⟩, h]
    · obtain ⟨m, hm, rfl⟩ := Option.map_eq_some_iff.mp h
      have hnot : ¬ (c = '\r' ∧ (buf ++ more).head? = some '\n') := by
        rintro ⟨hc, hhead⟩
        cases buf with
        | nil => exact absurd hm (by simp [findNewline])
        | cons d buf => exact hr ⟨hc, hhead⟩
      rw [if_neg hz, if_neg hnot, ih hm]
      rfl

/-- What has arrived of a line and what follows it: the line is there, or its end has not been
found. -/
theorem line_cases {line rest buf more : Text} (hline : Clean line)
    (h : buf ++ more = line ++ (crlf ++ rest)) :
    (∃ tail, buf = line ++ (crlf ++ tail) ∧ rest = tail ++ more ∧
        findNewline buf = some line.length) ∨
      findNewline buf = none ∧ more ≠ [] := by
  by_cases hlen : line.length + 2 ≤ buf.length
  · have hpre : line ++ crlf <+: buf := by
      have hlong : buf <+: buf ++ more := List.prefix_append _ _
      refine List.prefix_of_prefix_length_le ?_ hlong ?_
      · rw [h, ← List.append_assoc]
        exact List.prefix_append _ _
      · rw [List.length_append]
        exact hlen
    obtain ⟨tail, rfl⟩ := hpre
    rw [List.append_assoc, List.append_assoc, List.append_cancel_left_eq,
      List.append_cancel_left_eq] at h
    refine Or.inl ⟨tail, List.append_assoc _ _ _, h.symm, ?_⟩
    rw [List.append_assoc, findNewline_append hline]
  · refine Or.inr ⟨?_, ?_⟩
    · by_contra hne
      obtain ⟨n, hn⟩ := Option.ne_none_iff_exists'.mp hne
      have hfull := findNewline_append_of_some hn more
      rw [h, findNewline_append hline] at hfull
      have hle := add_two_le_of_findNewline hn
      have heq := Option.some.inj hfull
      omega
    · rintro rfl
      rw [List.append_nil] at h
      rw [h, List.length_append, List.length_append] at hlen
      exact hlen (by simp [crlf])

/-! ### Bodies -/

/-- The client when `text` has been copied. -/
def HttpClient.copied (cl : HttpClient) (text : Text) : HttpClient :=
  { cl with
    request := { cl.request with contentLength := cl.request.contentLength - text.length }
    dispatch := ⟨true, cl.dispatch.postLen + text.length, cl.dispatch.body ++ text,
      if 1024 < cl.dispatch.postLen + text.length then 4096 else cl.dispatch.room⟩ }

/-- The client waits for a body of which `text` is left. -/
structure BodyLeft (h : Handler) (cl : HttpClient) (text : Text) (final : HttpClient) : Prop where
  state : cl.state = .data
  postData : cl.dispatch.postData = true
  contentLength : cl.request.contentLength = text.length
  ne_nil : text ≠ []
  postLen_nonneg : 0 ≤ cl.dispatch.postLen
  postLen_le : cl.dispatch.postLen + text.length ≤ 4096
  room : 1024 ≤ cl.dispatch.room ∧ (1024 < cl.dispatch.postLen → cl.dispatch.room = 4096)
  final_eq : final = (cl.copied text).serve h

theorem copied_append (cl : HttpClient) (text more : Text) :
    (cl.copied text).copied more = cl.copied (text ++ more) := by
  have hroom : (if 1024 < cl.dispatch.postLen + text.length + more.length then (4096 : ℤ)
      else if 1024 < cl.dispatch.postLen + text.length then 4096 else cl.dispatch.room) =
      if 1024 < cl.dispatch.postLen + (text ++ more).length then 4096 else cl.dispatch.room := by
    rw [List.length_append]
    split_ifs
    all_goals first | rfl | omega
  rw [HttpClient.copied, HttpClient.copied, HttpClient.copied, ← hroom]
  simp only [List.length_append, List.append_assoc, Nat.cast_add, add_assoc, sub_sub]

variable {h : Handler} {cl final : HttpClient} {buf more text : Text}

/-- What has arrived of the body is copied into the block. -/
theorem BodyLeft.clientPollLoop (hw : BodyLeft h cl (buf ++ more) final) (hbuf : buf ≠ [])
    (fuel : ℕ) : Http.clientPollLoop (fuel + 2) cl buf = .ok (cl.copied buf, [], true) := by
  have hlen := hw.contentLength
  have hle := hw.postLen_le
  have hpos := List.length_pos_iff.mpr hbuf
  have hroom := hw.room
  rw [List.length_append, Nat.cast_add] at hlen hle
  have hmin : min cl.request.contentLength (buf.length : ℤ) = buf.length := by omega
  have hpost : postPostData cl buf buf.length = .ok ({ cl with
      dispatch := ⟨true, cl.dispatch.postLen + buf.length, cl.dispatch.body ++ buf,
        if 1024 < cl.dispatch.postLen + buf.length then 4096 else cl.dispatch.room⟩ },
      buf.length) := by
    have hfits : ¬ ((buf.length : ℤ) < 0 ∨
        (if 1024 < cl.dispatch.postLen + buf.length then 4096 else cl.dispatch.room) <
          cl.dispatch.postLen + buf.length) := by
      split_ifs
      · omega
      · omega
    rw [postPostData]
    dsimp only
    rw [if_neg (by omega), if_neg hfits, Int.toNat_natCast, List.take_length, ← hw.postData]
  rw [Http.clientPollLoop, if_neg hbuf, if_neg (by simp [hw.postData])]
  dsimp only
  rw [hmin, if_neg (by omega), hpost]
  dsimp only
  rw [Int.toNat_natCast, List.drop_length]
  by_cases hall : cl.request.contentLength - buf.length ≤ 0
  · rw [if_pos hall]
    rfl
  · rw [if_neg hall, Http.clientPollLoop.eq_def]
    rfl

theorem BodyLeft.contentLength_copied (hw : BodyLeft h cl (buf ++ more) final) :
    (cl.copied buf).request.contentLength = more.length := by
  have hlen := hw.contentLength
  rw [List.length_append, Nat.cast_add] at hlen
  rw [HttpClient.copied]
  dsimp only
  omega

/-- The client waits for the rest when a part of the body has been copied. -/
theorem BodyLeft.copied (hw : BodyLeft h cl (buf ++ more) final) (hmore : more ≠ []) :
    BodyLeft h (cl.copied buf) more final := by
  have hle := hw.postLen_le
  have hnonneg := hw.postLen_nonneg
  have hroom := hw.room
  rw [List.length_append, Nat.cast_add] at hle
  refine ⟨hw.state, rfl, hw.contentLength_copied, hmore, ?_, ?_, ?_, ?_⟩
  · rw [HttpClient.copied]
    dsimp only
    omega
  · rw [HttpClient.copied]
    dsimp only
    omega
  · rw [HttpClient.copied]
    dsimp only
    split_ifs
    · exact ⟨by decide, fun _ => rfl⟩
    · exact ⟨hroom.1, fun hlt => by omega⟩
  · rw [copied_append, hw.final_eq]

/-- Nothing of the body arrives. -/
theorem BodyLeft.clientPollPostData_nil (hw : BodyLeft h cl more final) :
    Http.clientPollPostData h cl [] = .ok (cl, []) := by
  have hlen := hw.contentLength
  have hpos := List.length_pos_iff.mpr hw.ne_nil
  rw [Http.clientPollPostData, if_neg (by simp [hw.state]), Http.clientPollLoop, if_pos rfl]
  dsimp only
  rw [if_neg fun hc => by omega]

/-- A part of the body arrives. -/
theorem BodyLeft.clientPollPostData (hw : BodyLeft h cl (buf ++ more) final) :
    ∃ cl', Http.clientPollPostData h cl buf = .ok (cl', []) ∧ (more = [] → cl' = final) ∧
      (more ≠ [] → BodyLeft h cl' more final) := by
  by_cases hbuf : buf = []
  · subst hbuf
    exact ⟨cl, hw.clientPollPostData_nil, fun hnil => absurd hnil hw.ne_nil, fun _ => hw⟩
  · have hleft := hw.contentLength_copied
    rw [Http.clientPollPostData, if_neg (by simp [hw.state]), hw.clientPollLoop hbuf]
    dsimp only
    by_cases hmore : more = []
    · subst hmore
      have hdone : (cl.copied buf).state ≠ .done := by
        rw [HttpClient.copied]
        simp [hw.state]
      refine ⟨_, if_pos ⟨rfl, hleft, hdone, rfl⟩, fun _ => ?_, fun hne => absurd rfl hne⟩
      rw [hw.final_eq, List.append_nil]
    · have hpos := List.length_pos_iff.mpr hmore
      refine ⟨cl.copied buf, if_neg fun hc => ?_, fun hnil => absurd hnil hmore,
        fun _ => hw.copied hmore⟩
      rw [hleft] at hc
      omega

/-! ### What a text does -/

/-- All of `text` is read, and the client is then `final`. -/
inductive Takes (h : Handler) : HttpClient → Text → HttpClient → Prop
  | line {cl cl' final : HttpClient} {line rest : Text} (hstate : cl.state = .init)
      (hline : Clean line) (hne : line ≠ []) (hparse : clientParseRequest cl line = (cl', .header))
      (hrest : Takes h { cl' with state := .header } rest final) :
      Takes h cl (line ++ (crlf ++ rest)) final
  | header {cl cl' final : HttpClient} {line rest : Text} (hstate : cl.state = .header)
      (hline : Clean line) (hparse : clientParseHeader h cl line = .ok cl')
      (hstate' : cl'.state = .header) (hrest : Takes h cl' rest final) :
      Takes h cl (line ++ (crlf ++ rest)) final
  | answered {cl final : HttpClient} (hstate : cl.state = .header)
      (hparse : clientParseHeader h cl [] = .ok final) (hstate' : final.state ≠ .data) :
      Takes h cl ([] ++ (crlf ++ [])) final
  | body {cl cl' final : HttpClient} {text : Text} (hstate : cl.state = .header)
      (hparse : clientParseHeader h cl [] = .ok cl') (hwaits : BodyLeft h cl' text final) :
      Takes h cl ([] ++ (crlf ++ text)) final
  | waits {cl final : HttpClient} {text : Text} (hwaits : BodyLeft h cl text final) :
      Takes h cl text final

theorem clean_nil : Clean [] := ⟨List.not_mem_nil, List.not_mem_nil⟩

theorem Takes.ne_nil (ht : Takes h cl text final) : text ≠ [] := by
  cases ht with
  | waits hwaits => exact hwaits.ne_nil
  | line | header | answered | body => simp [crlf]

/-- What a call of `uh_client_read_cb` leaves, when `more` is still to come. -/
def Reads (h : Handler) (final : HttpClient) (buf more : Text)
    (res : Except Fault (HttpClient × Text)) : Prop :=
  ∃ cl rest, res = .ok (cl, rest) ∧ rest.length ≤ buf.length ∧
    (more = [] → cl = final ∧ rest = []) ∧ (more ≠ [] → Takes h cl (rest ++ more) final)

theorem Reads.mono {buf' : Text} {res : Except Fault (HttpClient × Text)}
    (hr : Reads h final buf more res) (hle : buf.length ≤ buf'.length) :
    Reads h final buf' more res := by
  obtain ⟨cl, rest, hres, hrest, hends⟩ := hr
  exact ⟨cl, rest, hres, hrest.trans hle, hends⟩

/-- While the end of a line is missing the bytes stay where they are. -/
theorem reads_of_false {fuel : ℕ} (hlt : buf.length < BUFFER_LEN) (hmore : more ≠ [])
    (ht : Takes h cl (buf ++ more) final)
    (hcb : buf ≠ [] → readCbs h cl buf = some (.ok (cl, buf, false))) :
    Reads h final buf more (readLoop h (fuel + 1) cl buf) := by
  refine ⟨cl, buf, ?_, le_rfl, fun hnil => absurd hnil hmore, fun _ => ht⟩
  rw [readLoop]
  split_ifs with hbuf
  · rfl
  · rw [hcb hbuf]
    dsimp only
    rw [if_neg fun hc => Nat.ne_of_lt hlt hc.1]

theorem reads_of_data {cl' : HttpClient} {rest : Text} {fuel : ℕ} (hlt : buf.length < BUFFER_LEN)
    (hbuf : buf ≠ []) (hcb : readCbs h cl buf = some (clientDataCb h cl' rest))
    (hw : BodyLeft h cl' (rest ++ more) final) :
    Reads h final buf more (readLoop h (fuel + 1) cl buf) := by
  obtain ⟨cl₁, hpoll, hend, hgo⟩ := hw.clientPollPostData
  refine ⟨cl₁, [], ?_, Nat.zero_le _, fun hnil => ⟨hend hnil, rfl⟩, fun hne => .waits (hgo hne)⟩
  rw [readLoop, if_neg hbuf, hcb, clientDataCb, hpoll]
  dsimp only [Except.map]
  rw [if_neg fun hc => Nat.ne_of_lt hlt hc.1]

theorem drop_line (line tail : Text) :
    (line ++ (crlf ++ tail)).drop (line.length + 2) = tail := by
  rw [← List.append_assoc]
  exact List.drop_left' (by simp [crlf])

theorem clientInitCb_line {cl' : HttpClient} {line : Text} (hline : Clean line) (hne : line ≠ [])
    (hparse : clientParseRequest cl line = (cl', .header)) (tail : Text) :
    clientInitCb cl (line ++ (crlf ++ tail)) = ({ cl' with state := .header }, tail, true) := by
  rw [clientInitCb, findNewline_append hline]
  dsimp only
  rw [if_neg (mt List.length_eq_zero_iff.mp hne), List.take_left, hparse, drop_line]
  rfl

theorem clientHeaderCb_line {cl' : HttpClient} {line : Text} (hline : Clean line)
    (hparse : clientParseHeader h cl line = .ok cl') (tail : Text) :
    clientHeaderCb h cl (line ++ (crlf ++ tail)) =
      if cl'.state = .data then clientDataCb h cl' tail else .ok (cl', tail, true) := by
  rw [clientHeaderCb, findNewline_append hline]
  dsimp only
  rw [List.take_left, hparse, drop_line]

/-- A line has been read, and the loop goes on. -/
theorem reads_of_true {cl' : HttpClient} {line tail : Text} {fuel : ℕ}
    (hcb : readCbs h cl (line ++ (crlf ++ tail)) = some (.ok (cl', tail, true)))
    (hr : Reads h final tail more (readLoop h fuel cl' tail)) :
    Reads h final (line ++ (crlf ++ tail)) more
      (readLoop h (fuel + 1) cl (line ++ (crlf ++ tail))) := by
  rw [readLoop, if_neg (by simp [crlf]), hcb]
  refine hr.mono ?_
  rw [List.length_append, List.length_append]
  omega

/-- A call reads as much as has arrived. -/
theorem Takes.read (ht : Takes h cl text final) {buf more : Text} (htext : buf ++ more = text)
    (hlt : buf.length < BUFFER_LEN) {fuel : ℕ} (hfuel : buf.length ≤ fuel) :
    Reads h final buf more (readLoop h (fuel + 1) cl buf) := by
  have hlen : ∀ line tail : Text,
      (line ++ (crlf ++ tail)).length = line.length + (2 + tail.length) :=
    fun line tail => by rw [List.length_append, List.length_append]; rfl
  induction ht generalizing buf fuel with
  | @line cl cl' final line rest hstate hline hne hparse hrest ih =>
    rcases line_cases hline htext with ⟨tail, rfl, hcons, hfind⟩ | ⟨hfind, hmore⟩
    · rw [hlen] at hlt hfuel
      obtain ⟨fuel, rfl⟩ : ∃ f, fuel = f + 1 := ⟨fuel - 1, by omega⟩
      refine reads_of_true ?_ (ih hcons.symm (by omega) (by omega))
      rw [readCbs, hstate, clientInitCb_line hline hne hparse]
    · refine reads_of_false hlt hmore (htext ▸ .line hstate hline hne hparse hrest) fun _ => ?_
      rw [readCbs, hstate, clientInitCb, hfind]
  | @header cl cl' final line rest hstate hline hparse hstate' hrest ih =>
    rcases line_cases hline htext with ⟨tail, rfl, hcons, hfind⟩ | ⟨hfind, hmore⟩
    · rw [hlen] at hlt hfuel
      obtain ⟨fuel, rfl⟩ : ∃ f, fuel = f + 1 := ⟨fuel - 1, by omega⟩
      refine reads_of_true ?_ (ih hcons.symm (by omega) (by omega))
      rw [readCbs, hstate, clientHeaderCb_line hline hparse, hstate']
      rfl
    · refine reads_of_false hlt hmore (htext ▸ .header hstate hline hparse hstate' hrest)
        fun _ => ?_
      rw [readCbs, hstate, clientHeaderCb, hfind]
  | @answered cl final hstate hparse hstate' =>
    rcases line_cases clean_nil htext with ⟨tail, rfl, hcons, hfind⟩ | ⟨hfind, hmore⟩
    · obtain ⟨rfl, rfl⟩ := List.append_eq_nil_iff.mp hcons.symm
      rw [hlen] at hfuel
      obtain ⟨fuel, rfl⟩ : ∃ f, fuel = f + 1 := ⟨fuel - 1, by omega⟩
      have hcb : readCbs h cl ([] ++ (crlf ++ [])) = some (.ok (final, [], true)) := by
        rw [readCbs, hstate, clientHeaderCb_line clean_nil hparse, if_neg hstate']
      refine reads_of_true hcb
        ⟨final, [], ?_, le_rfl, fun _ => ⟨rfl, rfl⟩, fun hne => absurd rfl hne⟩
      rw [readLoop, if_pos rfl]
    · refine reads_of_false hlt hmore (htext ▸ .answered hstate hparse hstate') fun _ => ?_
      rw [readCbs, hstate, clientHeaderCb, hfind]
  | @body cl cl' final text hstate hparse hwaits =>
    rcases line_cases clean_nil htext with ⟨tail, rfl, hcons, hfind⟩ | ⟨hfind, hmore⟩
    · refine reads_of_data hlt (by simp [crlf]) ?_ (hcons ▸ hwaits)
      rw [readCbs, hstate, clientHeaderCb_line clean_nil hparse, if_pos hwaits.state]
    · refine reads_of_false hlt hmore (htext ▸ .body hstate hparse hwaits) fun _ => ?_
      rw [readCbs, hstate, clientHeaderCb, hfind]
  | @waits cl final text hwaits =>
    by_cases hbuf : buf = []
    · subst hbuf
      have hne : more ≠ [] := by
        rintro rfl
        exact hwaits.ne_nil htext.symm
      exact ⟨cl, [], by rw [readLoop, if_pos rfl], le_rfl, fun hnil => absurd hnil hne,
        fun _ => htext ▸ .waits hwaits⟩
    · refine reads_of_data hlt hbuf ?_ (htext ▸ hwaits)
      rw [readCbs, hwaits.state]

theorem feed_nil {chunks : List Text} (hnil : chunks.flatten = []) :
    chunks.foldlM (Http.feed h) (cl, []) = .ok (cl, []) := by
  induction chunks with
  | nil => rfl
  | cons chunk chunks ih =>
    rw [List.flatten_cons, List.append_eq_nil_iff] at hnil
    obtain ⟨rfl, hnil⟩ := hnil
    have hread : Http.feed h (cl, []) [] = .ok (cl, []) := by
      rw [Http.feed, uhClientReadCb, readLoop, List.append_nil, if_pos rfl]
    rw [List.foldlM_cons, hread]
    exact ih hnil

/-- The pieces in which a text arrives do not matter. -/
theorem Takes.feed {chunks : List Text} (ht : Takes h cl (buf ++ chunks.flatten) final)
    (hlt : (buf ++ chunks.flatten).length < BUFFER_LEN) (hmore : chunks.flatten ≠ []) :
    chunks.foldlM (Http.feed h) (cl, buf) = .ok (final, []) := by
  induction chunks generalizing cl buf with
  | nil => exact absurd rfl hmore
  | cons chunk chunks ih =>
    rw [List.flatten_cons, ← List.append_assoc] at ht hlt
    have hbuf : (buf ++ chunk).length < BUFFER_LEN := by
      rw [List.length_append] at hlt
      omega
    obtain ⟨cl₁, rest, hres, hle, hend, hgo⟩ := ht.read rfl hbuf le_rfl
    rw [List.foldlM_cons, Http.feed, uhClientReadCb, hres]
    by_cases hnil : chunks.flatten = []
    · obtain ⟨rfl, rfl⟩ := hend hnil
      exact feed_nil hnil
    · refine ih (hgo hnil) ?_ hnil
      rw [List.length_append] at hlt ⊢
      omega

end M57Card.Http
