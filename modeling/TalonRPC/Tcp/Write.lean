import TalonRPC.Machine.Run
import TalonRPC.Tcp.Connection

/-!
# What onWrite sends

The bytes a socket takes should be the frames of the replied messages, each once and in order. But
`onWrite` never moves the read index of the out-buffer: what was taken once stays in front of the
out-buffer, and the next write starts over with it.

## Main definitions

* `Sender`: a connection, the messages replied on it, and the bytes its socket took
* `sendStep`: a reply, or an `onWrite` with the results of its writes
* `Exact w e`: the bytes taken during the event are those that are due
* `Fresh w e`: no write of the event takes bytes that were taken before

## Main results

* `writeLoop_cons`, `writeLoop_invariant`: what a write does, and what the loop keeps
* `Sending.step`: the out-buffer holds all messages ever replied
* `sentOnce_iff`: the bytes of a run are exact exactly if they are fresh
-/

namespace TalonRPC

namespace TcpConnection

open Machine TinyPBCoder

variable {κ : Type}

/-- A connection, the messages replied on it, and the bytes its socket took. -/
structure Sender (κ : Type) where
  conn : TcpConnection κ
  replied : List TinyPBProtocol
  sent : ByteString

/-- What happens to a server connection. -/
inductive SendEvent
  | reply (ms : List TinyPBProtocol)
  | onWrite (rs : List WriteResult)
  deriving DecidableEq, Repr

/-- An event. It cannot happen if it ends the program, or if the results of the writes are not one
for each. -/
def sendStep (w : Sender κ) : SendEvent → Option (Sender κ)
  | .reply ms =>
    match w.conn.reply ms with
    | .ok (_, c) => some ⟨c, w.replied ++ ms, w.sent⟩
    | .error _ => none
  | .onWrite rs =>
    match w.conn.onWrite rs with
    | some (.ok x) => some ⟨x.conn, w.replied, w.sent ++ x.accepted.flatten⟩
    | _ => none

/-- At every moment of the event, the bytes the socket took are a prefix of the frames of the
replied messages; after an `onWrite` with `is_write_all` they are all of them. -/
def Exact (w : Sender κ) : SendEvent → Prop
  | .reply ms => ∀ w', sendStep w (.reply ms) = some w' → w'.sent <+: wire w'.replied
  | .onWrite rs => ∀ x, w.conn.onWrite rs = some (.ok x) →
      (∀ accepted, accepted <+: x.accepted → w.sent ++ accepted.flatten <+: wire w.replied) ∧
        (x.isWriteAll → w.sent ++ x.accepted.flatten = wire w.replied)

/-- When the `n` first bytes of the stream may be taken after `a` bytes: when these are none, or
when the write is short and the stream has the same `n` bytes at `a`. -/
def Repeats (stream : ByteString) (a n : ℕ) : Prop :=
  a = 0 ∨ n < stream.length ∧ stream.take n = (stream.drop a).take n

/-- `Repeats`, at each write of an `onWrite` before which `a` bytes of the stream were taken. -/
def FreshWrites (stream : ByteString) : ℕ → List WriteResult → Prop
  | _, [] => True
  | a, .count n :: rs => Repeats stream a n ∧ FreshWrites stream (a + n) rs
  | a, .again :: rs => FreshWrites stream a rs
  | a, .error :: rs => FreshWrites stream a rs

/-- No write of the event takes bytes that were taken before, unless the stream repeats them. -/
def Fresh (w : Sender κ) : SendEvent → Prop
  | .reply _ => True
  | .onWrite rs => FreshWrites (wire w.replied) w.sent.length rs

instance (stream : ByteString) (a n : ℕ) : Decidable (Repeats stream a n) :=
  inferInstanceAs (Decidable (_ ∨ _ ∧ _))

instance decidableFreshWrites (stream : ByteString) :
    ∀ a rs, Decidable (FreshWrites stream a rs)
  | _, [] => .isTrue trivial
  | a, .count n :: rs =>
    have := decidableFreshWrites stream (a + n) rs
    inferInstanceAs (Decidable (_ ∧ _))
  | a, .again :: rs => decidableFreshWrites stream a rs
  | a, .error :: rs => decidableFreshWrites stream a rs

instance (w : Sender κ) : DecidablePred (Fresh w)
  | .reply _ => .isTrue trivial
  | .onWrite rs => inferInstanceAs (Decidable (FreshWrites _ _ rs))

variable {w w' : Sender κ} {out : TcpBuffer} {rs : List WriteResult}
  {sent : ByteString} {acc accepted : List ByteString} {all : Bool} {e : SendEvent}

/-! ## The loop -/

/-- What a full write takes was not taken before exactly if nothing was. -/
theorem repeats_iff {stream : ByteString} {a n : ℕ} (hne : stream ≠ []) :
    Repeats stream a n ↔ stream.take n = (stream.drop a).take n := by
  constructor
  · rintro (rfl | ⟨-, h⟩)
    · rfl
    · exact h
  · intro h
    rcases Nat.lt_or_ge n stream.length with hn | hn
    · exact .inr ⟨hn, h⟩
    · -- All bytes of the stream would be left at `a`.
      have hlen := congrArg List.length h
      have hpos := List.length_pos_iff.mpr hne
      rw [List.length_take, List.length_take, List.length_drop] at hlen
      left
      omega

theorem prefix_append_take_iff {s stream : ByteString} (h : s <+: stream) (hne : stream ≠ [])
    (n : ℕ) : s ++ stream.take n <+: stream ↔ Repeats stream s.length n := by
  rw [repeats_iff hne]
  obtain ⟨t, rfl⟩ := h
  rw [List.prefix_append_right_inj, List.prefix_iff_eq_take, List.drop_left, List.length_take,
    List.length_append]
  -- No more bytes are left than the stream has.
  rcases Nat.le_total n (s.length + t.length) with hn | hn
  · rw [Nat.min_eq_left hn]
  · rw [Nat.min_eq_right hn, List.take_of_length_le (by omega : t.length ≤ s.length + t.length),
      List.take_of_length_le (by omega : t.length ≤ n)]

theorem writeTurn_of_empty (h : out.readAble = 0) : writeTurn out acc = .done (acc, true) :=
  if_pos h

theorem writeTurn_of_ne (h : out.readAble ≠ 0) : writeTurn out acc = .ask (writeAnswer out acc) :=
  if_neg h

/-- The loop writes again after a short or a failed write. -/
theorem writeAnswer_next {r : WriteResult} {acc' : List ByteString}
    (h : writeAnswer out acc r = .next acc') :
    r = .error ∧ acc' = acc ∨
      ∃ n < out.readAble, r = .count n ∧ acc' = acc ++ [out.readable.take n] := by
  cases r with
  | count n =>
    rw [writeAnswer] at h
    split_ifs at h with hn
    cases h
    exact .inr ⟨n, by omega, rfl, rfl⟩
  | again => cases h
  | error =>
    cases h
    exact .inl ⟨rfl, rfl⟩

/-- It leaves when a write would block, or took all bytes. -/
theorem writeAnswer_done {r : WriteResult} {left : List ByteString × Bool}
    (h : writeAnswer out acc r = .done left) :
    r = .again ∧ left = (acc, false) ∨
      ∃ n, out.readAble ≤ n ∧ r = .count n ∧ left = (acc ++ [out.readable.take n], true) := by
  cases r with
  | count n =>
    rw [writeAnswer] at h
    split_ifs at h with hn
    cases h
    exact .inr ⟨n, hn, rfl, rfl⟩
  | again =>
    cases h
    exact .inl ⟨rfl, rfl⟩
  | error => cases h

/-- With no result left, the loop ends where nothing is readable. -/
theorem writeLoop_nil (h : converse (writeTurn out) [] acc = some (accepted, all)) :
    accepted = acc ∧ all = true ∧ out.readAble = 0 := by
  have hdone := converse_nil.mp h
  unfold writeTurn at hdone
  split_ifs at hdone with hzero
  cases hdone
  exact ⟨rfl, rfl, hzero⟩

/-- **The first write of the loop** fails, is short, would block or takes all; after the last two
no result is left. -/
theorem writeLoop_cons {r : WriteResult}
    (h : converse (writeTurn out) (r :: rs) acc = some (accepted, all)) :
    out.readAble ≠ 0 ∧
      (r = .error ∧ converse (writeTurn out) rs acc = some (accepted, all) ∨
        (∃ n < out.readAble, r = .count n ∧
          converse (writeTurn out) rs (acc ++ [out.readable.take n]) = some (accepted, all)) ∨
        (r = .again ∧ rs = [] ∧ accepted = acc ∧ all = false) ∨
        ∃ n, out.readAble ≤ n ∧ r = .count n ∧ rs = [] ∧
          accepted = acc ++ [out.readable.take n] ∧ all = true) := by
  have hne : out.readAble ≠ 0 := fun hzero => by
    cases ((converse_of_done (writeTurn_of_empty hzero)).mp h).1
  have hturn : writeTurn out acc = .ask (writeAnswer out acc) := writeTurn_of_ne hne
  refine ⟨hne, ?_⟩
  cases hr : writeAnswer out acc r with
  | next acc' =>
    rw [converse_next hturn hr] at h
    rcases writeAnswer_next hr with ⟨rfl, rfl⟩ | ⟨n, hn, rfl, rfl⟩
    · exact .inl ⟨rfl, h⟩
    · exact .inr (.inl ⟨n, hn, rfl, h⟩)
  | done left =>
    obtain ⟨rfl, rfl⟩ := (converse_done hturn hr).mp h
    rcases writeAnswer_done hr with ⟨rfl, hleft⟩ | ⟨n, hn, rfl, hleft⟩
    · cases hleft
      exact .inr (.inr (.inl ⟨rfl, rfl, rfl, rfl⟩))
    · cases hleft
      exact .inr (.inr (.inr ⟨n, hn, rfl, rfl, rfl, rfl⟩))

/-- **The rule of the loop**: what short writes keep holds when it is left, before a last write that
takes all. -/
theorem writeLoop_invariant {I : List ByteString → Prop}
    (h : converse (writeTurn out) rs acc = some (accepted, all)) (h0 : I acc)
    (hI : ∀ taken n, I taken → n < out.readAble → I (taken ++ [out.readable.take n])) :
    I accepted ∧ (all = true → out.readAble = 0) ∨
      ∃ taken n, I taken ∧ out.readAble ≤ n ∧ accepted = taken ++ [out.readable.take n] ∧
        all = true := by
  refine converse_invariant (I := I)
    (P := fun left => I left.1 ∧ (left.2 = true → out.readAble = 0) ∨
      ∃ taken n, I taken ∧ out.readAble ≤ n ∧ left.1 = taken ++ [out.readable.take n] ∧
        left.2 = true) h h0 ?_ ?_
  · intro taken left htaken hturn
    unfold writeTurn at hturn
    split_ifs at hturn with hzero
    cases hturn
    exact .inl ⟨htaken, fun _ => hzero⟩
  · intro taken k r htaken hturn
    unfold writeTurn at hturn
    split_ifs at hturn
    cases hturn
    constructor
    · intro acc' hnext
      -- A failed write takes nothing.
      rcases writeAnswer_next hnext with ⟨-, rfl⟩ | ⟨n, hn, -, rfl⟩
      · exact htaken
      · exact hI taken n htaken hn
    · intro left hdone
      rcases writeAnswer_done hdone with ⟨-, rfl⟩ | ⟨n, hn, -, rfl⟩
      · exact .inl ⟨htaken, nofun⟩
      · exact .inr ⟨taken, n, htaken, hn, rfl, rfl⟩

/-- The socket takes more and more. -/
theorem prefix_of_converse (h : converse (writeTurn out) rs acc = some (accepted, all)) :
    acc <+: accepted := by
  have hlonger : ∀ taken n, acc <+: taken → acc <+: taken ++ [out.readable.take n] :=
    fun taken n htaken => htaken.trans (List.prefix_append taken [out.readable.take n])
  rcases writeLoop_invariant h (List.prefix_refl acc) fun taken n htaken _ => hlonger taken n htaken
    with ⟨hacc, -⟩ | ⟨taken, n, htaken, -, rfl, -⟩
  · exact hacc
  · exact hlonger taken n htaken

/-- What a property of the taken bytes says between `acc` and a longer list. -/
theorem forall_between_iff {P : List ByteString → Prop} {bs : ByteString}
    (hlonger : acc ++ [bs] <+: accepted) :
    (∀ p, acc <+: p → p <+: accepted → P p) ↔
      P acc ∧ ∀ p, acc ++ [bs] <+: p → p <+: accepted → P p := by
  have hacc : acc <+: acc ++ [bs] := List.prefix_append ..
  constructor
  · intro h
    exact ⟨h acc (List.prefix_refl acc) (hacc.trans hlonger), fun p hp => h p (hacc.trans hp)⟩
  · rintro ⟨hP, h⟩ p hp hp'
    rcases List.prefix_or_prefix_of_prefix hp' hlonger with hle | hge
    · rcases List.prefix_concat_iff.mp hle with rfl | hle
      · exact h _ (List.prefix_refl _) hp'
      · rwa [hle.eq_of_length_le hp.length_le]
    · exact h p hge hp'

theorem forall_between_self_iff {P : List ByteString → Prop} :
    (∀ p, acc <+: p → p <+: acc → P p) ↔ P acc := by
  constructor
  · intro h
    exact h acc (List.prefix_refl acc) (List.prefix_refl acc)
  · intro hP p hp hp'
    rwa [hp'.eq_of_length_le hp.length_le]

/-- **Along the writes of an `onWrite`**, the socket has taken a prefix of the stream exactly if
they are fresh. -/
theorem prefixes_iff_freshWrites (h : converse (writeTurn out) rs acc = some (accepted, all))
    (hlen : out.readable.length = out.readAble) (hsent : sent ++ acc.flatten <+: out.readable) :
    (∀ p, acc <+: p → p <+: accepted → sent ++ p.flatten <+: out.readable) ↔
      FreshWrites out.readable (sent ++ acc.flatten).length rs := by
  induction rs generalizing acc with
  | nil =>
    obtain ⟨rfl, -, -⟩ := writeLoop_nil h
    rw [forall_between_self_iff, FreshWrites]
    exact iff_true_intro hsent
  | cons r rs ih =>
    obtain ⟨hne, hfirst⟩ := writeLoop_cons h
    have hstream : out.readable ≠ [] := fun hempty => hne (by rw [← hlen, hempty]; rfl)
    rcases hfirst with ⟨rfl, hrest⟩ | ⟨n, hn, rfl, hrest⟩ | ⟨rfl, rfl, rfl, -⟩ |
      ⟨n, hn, rfl, rfl, rfl, -⟩
    · exact ih hrest hsent
    · -- A short write: its bytes come after those taken before.
      have hflatten : sent ++ (acc ++ [out.readable.take n]).flatten =
          sent ++ acc.flatten ++ out.readable.take n := by simp
      have hlength : (sent ++ (acc ++ [out.readable.take n]).flatten).length =
          (sent ++ acc.flatten).length + n := by
        rw [hflatten, List.length_append, List.length_take, hlen, Nat.min_eq_left hn.le]
      have hmore := prefix_of_converse hrest
      rw [forall_between_iff hmore, FreshWrites, ← prefix_append_take_iff hsent hstream,
        ← hflatten, ← hlength]
      constructor
      · rintro ⟨-, hall⟩
        have htaken := hall _ (List.prefix_refl _) hmore
        exact ⟨htaken, (ih hrest htaken).mp hall⟩
      · rintro ⟨htaken, hfresh⟩
        exact ⟨hsent, (ih hrest htaken).mpr hfresh⟩
    · rw [forall_between_self_iff, FreshWrites, FreshWrites]
      exact iff_true_intro hsent
    · rw [forall_between_iff (List.prefix_refl _), forall_between_self_iff, FreshWrites,
        FreshWrites, ← prefix_append_take_iff hsent hstream]
      simp [hsent]

/-- Where the loop leaves with `is_write_all`, there was nothing to write, or the last write took
all. -/
theorem writeAll_cases (h : converse (writeTurn out) rs acc = some (accepted, true))
    (hlen : out.readable.length = out.readAble) :
    out.readable = [] ∨ ∃ front, accepted = front ++ [out.readable] := by
  -- Only the last write matters, so nothing has to be known of those before.
  rcases writeLoop_invariant (I := fun _ => True) h trivial fun _ _ _ _ => trivial
    with ⟨-, hzero⟩ | ⟨front, n, -, hn, rfl, -⟩
  · exact .inl (List.eq_nil_of_length_eq_zero (hlen.trans (hzero rfl)))
  · exact .inr ⟨front, by rw [List.take_of_length_le (by omega)]⟩

/-! ## Server connections -/

/-- A server connection whose out-buffer holds the frames of all messages replied on it, and the
bytes its socket took are the first of them. -/
structure Sending (w : Sender κ) : Prop where
  connected : w.conn.state = .connected
  byServer : w.conn.connectionType = .byServer
  wellFormed : w.conn.outBuffer.WellFormed
  readable : w.conn.outBuffer.readable = wire w.replied
  sent : w.sent <+: wire w.replied

/-- An `onWrite` of a server connection is its loop. -/
theorem onWrite_eq_some_iff {c : TcpConnection κ} (hstate : c.state = .connected)
    (hserver : c.connectionType = .byServer) {x : Writing κ} :
    c.onWrite rs = some (.ok x) ↔
      ∃ accepted all, converse (writeTurn c.outBuffer) rs [] = some (accepted, all) ∧
        x = c.afterWrite accepted all := by
  have hpending : c.encodePending = .ok c := by rw [encodePending, hserver]
  rw [onWrite, if_neg (not_not_intro hstate), hpending]
  simp only [Option.map_eq_some_iff, Except.ok.injEq]
  constructor
  · rintro ⟨⟨accepted, all⟩, hconv, rfl⟩
    exact ⟨accepted, all, hconv, rfl⟩
  · rintro ⟨accepted, all, hconv, rfl⟩
    exact ⟨(accepted, all), hconv, rfl⟩

theorem afterWrite_byServer {c : TcpConnection κ} (hserver : c.connectionType = .byServer)
    (accepted : List ByteString) (all : Bool) :
    (c.afterWrite accepted all).accepted = accepted ∧
      (c.afterWrite accepted all).isWriteAll = all ∧
      (c.afterWrite accepted all).conn.outBuffer = c.outBuffer ∧
      (c.afterWrite accepted all).conn.state = c.state ∧
      (c.afterWrite accepted all).conn.connectionType = c.connectionType := by
  unfold afterWrite
  -- The event mask is all that changes.
  cases all <;> simp [hserver]

/-- **What happens to a server connection.** -/
theorem sendStep_cases (h : Sending w) (hstep : sendStep w e = some w') :
    (∃ ms ms' out, e = .reply ms ∧ encode ms w.conn.outBuffer = .ok (ms', out) ∧
      w' = ⟨{ w.conn with outBuffer := out }.listenWrite, w.replied ++ ms, w.sent⟩) ∨
    (∃ rs accepted all, e = .onWrite rs ∧
      converse (writeTurn w.conn.outBuffer) rs [] = some (accepted, all) ∧
      w' = ⟨(w.conn.afterWrite accepted all).conn, w.replied, w.sent ++ accepted.flatten⟩) := by
  cases e with
  | reply ms =>
    left
    rw [sendStep, TcpConnection.reply] at hstep
    cases hencode : encode ms w.conn.outBuffer with
    | error f => simp [hencode, Except.map] at hstep
    | ok r =>
      simp only [hencode, Except.map, Option.some.injEq] at hstep
      exact ⟨ms, r.1, r.2, rfl, hencode, hstep.symm⟩
  | onWrite rs =>
    right
    rw [sendStep] at hstep
    cases hwrite : w.conn.onWrite rs with
    | none => simp [hwrite] at hstep
    | some left =>
      cases left with
      | error f => simp [hwrite] at hstep
      -- The write happened, so its results were one for each turn of the loop.
      | ok x =>
        simp only [hwrite, Option.some.injEq] at hstep
        obtain ⟨accepted, all, hconv, rfl⟩ :=
          (onWrite_eq_some_iff h.connected h.byServer).mp hwrite
        refine ⟨rs, accepted, all, rfl, hconv, ?_⟩
        rw [← hstep, (afterWrite_byServer h.byServer accepted all).1]

/-- **The out-buffer holds all messages ever replied**, while the bytes taken are exact. -/
theorem Sending.step (h : Sending w) (hstep : sendStep w e = some w') (hexact : Exact w e) :
    Sending w' := by
  rcases sendStep_cases h hstep with ⟨ms, ms', out, rfl, hencode, rfl⟩ |
    ⟨rs, accepted, all, rfl, hconv, rfl⟩
  · obtain ⟨-, hwf, hread, -⟩ := encode_eq h.wellFormed hencode
    refine ⟨h.connected, h.byServer, hwf, ?_, hexact _ hstep⟩
    show out.readable = _
    rw [hread, h.readable, wire_append]
  · -- The connection keeps its out-buffer as it is.
    obtain ⟨haccepted, -, hout, hstate, htype⟩ := afterWrite_byServer h.byServer accepted all
    have hwrite := (onWrite_eq_some_iff h.connected h.byServer).mpr ⟨accepted, all, hconv, rfl⟩
    refine ⟨hstate.trans h.connected, htype.trans h.byServer, ?_, ?_, ?_⟩
    · rw [hout]
      exact h.wellFormed
    · rw [hout]
      exact h.readable
    · exact (hexact _ hwrite).1 accepted ⟨[], by rw [List.append_nil, haccepted]⟩

/-- **One event**: what the socket takes is exact exactly if it is fresh. -/
theorem exact_iff_fresh (h : Sending w) (hstep : sendStep w e = some w') :
    Exact w e ↔ Fresh w e := by
  rcases sendStep_cases h hstep with ⟨ms, ms', out, rfl, hencode, rfl⟩ |
    ⟨rs, accepted, all, rfl, hconv, rfl⟩
  · -- A reply only adds to what is due.
    rw [Fresh, iff_true]
    rintro w'' hw''
    obtain rfl := Option.some.inj (hstep.symm.trans hw'')
    show w.sent <+: wire (w.replied ++ ms)
    rw [wire_append]
    exact h.sent.trans (List.prefix_append ..)
  · obtain ⟨haccepted, hall, -⟩ :=
      afterWrite_byServer h.byServer accepted all
    have hwrite := (onWrite_eq_some_iff h.connected h.byServer).mpr ⟨accepted, all, hconv, rfl⟩
    have hlen := h.wellFormed.length_readable
    have hsent : w.sent ++ ([] : List ByteString).flatten <+: w.conn.outBuffer.readable := by
      rw [h.readable, List.flatten_nil, List.append_nil]
      exact h.sent
    -- The out-buffer holds the whole stream, and nothing was taken in this event before its first
    -- write.
    have hiff := prefixes_iff_freshWrites hconv hlen hsent
    rw [List.flatten_nil, List.append_nil, h.readable] at hiff
    rw [Fresh, ← hiff]
    constructor
    · intro hexact p _ hp
      exact (hexact _ hwrite).1 p (by rwa [haccepted])
    · rintro hprefix x hx
      obtain rfl := Except.ok.inj (Option.some.inj (hwrite.symm.trans hx))
      rw [haccepted, hall]
      refine ⟨fun p hp => hprefix p (List.nil_prefix) hp, ?_⟩
      rintro rfl
      have hwhole := hprefix accepted List.nil_prefix (List.prefix_refl _)
      -- The last write took everything, so that nothing was taken before.
      rcases writeAll_cases hconv hlen with hempty | ⟨front, rfl⟩
      · rw [h.readable] at hempty
        rw [hempty] at hwhole ⊢
        exact List.prefix_nil.mp hwhole
      · refine hwhole.eq_of_length_le ?_
        rw [List.flatten_append, List.flatten_singleton, h.readable, List.length_append,
          List.length_append]
        omega

/-- **Each reply is sent exactly once**, in every run of a server connection, exactly if no write
takes bytes that were taken before. -/
theorem sentOnce_iff (c : TcpConnection κ) (es : List SendEvent) (hstate : c.state = .connected)
    (hserver : c.connectionType = .byServer) (hwf : c.outBuffer.WellFormed)
    (hempty : c.outBuffer.readable = []) (hrun : (exec sendStep ⟨c, [], []⟩ es).isSome) :
    Along sendStep Exact ⟨c, [], []⟩ es ↔ Along sendStep Fresh ⟨c, [], []⟩ es := by
  -- As long as the bytes are exact, the out-buffer holds the stream from its first byte on.
  refine along_iff (I := Sending) hrun ⟨hstate, hserver, hwf, hempty, List.nil_prefix⟩ ?_ ?_
  · intro w e w' h hstep
    exact exact_iff_fresh h hstep
  · intro w e w' h hstep hexact
    exact h.step hstep hexact

/-! ## Two replies on one connection -/

/-- A connection to a client, with nothing to send. -/
def idleConnection : TcpConnection Unit :=
  { inBuffer := .new 100, outBuffer := .new 100, state := .connected }

/-- Two messages of 27 bytes. -/
def reply₁ : TinyPBProtocol := { msgId := [0x61] }

def reply₂ : TinyPBProtocol := { msgId := [0x62] }

/-- Both are replied before the socket takes them, in two writes. -/
def sentTogether : List SendEvent :=
  [.reply [reply₁], .onWrite [.again], .reply [reply₂], .onWrite [.count 54]]

/-- The socket takes the first before the second is replied. -/
def sentApart : List SendEvent :=
  [.reply [reply₁], .onWrite [.count 27], .reply [reply₂], .onWrite [.count 54]]

theorem sentOnce_iff_together : Along sendStep Exact ⟨idleConnection, [], []⟩ sentTogether :=
  (sentOnce_iff idleConnection sentTogether rfl rfl (by decide) (by decide)
    (by decide)).mpr (by decide)

/-- **The first reply is sent again**, in front of the second. -/
theorem not_sentOnce_apart :
    idleConnection.state = .connected ∧ idleConnection.connectionType = .byServer ∧
      idleConnection.outBuffer.WellFormed ∧ idleConnection.outBuffer.readable = [] ∧
      (exec sendStep ⟨idleConnection, [], []⟩ sentApart).isSome ∧
      ¬ Along sendStep Exact ⟨idleConnection, [], []⟩ sentApart := by
  refine ⟨rfl, rfl, by decide, by decide, by decide, ?_⟩
  rintro ⟨-, h₁⟩
  obtain ⟨-, h₂⟩ := h₁ _ rfl
  obtain ⟨-, h₃⟩ := h₂ _ rfl
  -- The fourth event: the socket takes the out-buffer a second time, from its front on.
  obtain ⟨h₄, -⟩ := h₃ _ rfl
  have hsent := (h₄ _ rfl).1 _ (List.prefix_refl _)
  exact absurd hsent (by decide)

end TcpConnection

end TalonRPC
