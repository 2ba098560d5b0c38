import Mathlib.Data.List.Nodup
import TalonRPC.Tcp.Write

/-!
# Messages and their callbacks

A client queues each message with a callback, which should run once the message is sent. `onWrite`
encodes the queued messages, writes, calls all callbacks, whether the socket has taken the bytes or
not, and clears the queue. A callback of a message whose bytes would have blocked is called too
early; a message that is queued by a callback is cleared before it is encoded.

## Main definitions

* `ClientSender`, `ClientSendEvent`, `clientSendStep`: a client connection that is given messages
  and writes
* `Acked`: when a callback runs, a write has taken the out-buffer up to the end of its message
* `Confirmed`: each message is encoded once, and its callback runs once, after it is sent
* `Unblocked`: no write of queued messages would block, and no callback queues a message

## Main results

* `acked_iff`: the callbacks of an `onWrite` are in time exactly if no write would block
* `confirmed_iff`: all callbacks mean that their messages are sent exactly if no `onWrite` is
  blocked
-/

namespace TalonRPC

namespace TcpConnection

open Machine TinyPBCoder TinyPBProtocol

variable {κ : Type}

/-- A client connection whose messages are numbered as they are queued, with those queued so far,
those encoded, and the calls of callbacks. -/
structure ClientSender where
  conn : TcpConnection ℕ
  pushed : List TinyPBProtocol := []
  encoded : List (TinyPBProtocol × ℕ) := []
  dones : List (TinyPBProtocol × ℕ) := []

/-- What happens to a client connection: a message is queued, or the socket answers `rs` in an
`onWrite`, whose callbacks queue the messages `inner`. -/
inductive ClientSendEvent
  | pushSendMessage (m : TinyPBProtocol)
  | onWrite (rs : List WriteResult) (inner : List TinyPBProtocol)
  deriving DecidableEq, Repr

/-- `TcpConnection::pushSendMessage`. -/
def pushSendMessage (c : TcpConnection κ) (m : TinyPBProtocol) (done : κ) : TcpConnection κ :=
  { c with writeDones := c.writeDones ++ [(m, done)] }

/-- The state after an event, if it can happen. The messages that callbacks queue are appended to
the queue that is being gone through, and cleared with it. That they invalidate the end of the loop
is not modelled: the loop ends where it would have. -/
def clientSendStep (w : ClientSender) : ClientSendEvent → Option ClientSender
  | .pushSendMessage m =>
    some { w with conn := w.conn.pushSendMessage m w.pushed.length, pushed := w.pushed ++ [m] }
  | .onWrite rs inner =>
    if inner ≠ [] ∧ w.conn.writeDones = [] then none
    else
      match w.conn.onWrite rs with
      | some (.ok x) =>
        some
          { conn := x.conn
            pushed := w.pushed ++ inner
            encoded := w.encoded ++ w.conn.writeDones
            dones := w.dones ++ x.dones }
      | _ => none

/-- When its callback runs, every byte of a message has been taken: a write has taken the out-buffer
up to the end of the frame of the message. -/
def Acked (w : ClientSender) : ClientSendEvent → Prop
  | .pushSendMessage _ => True
  | .onWrite rs _ => ∀ x, w.conn.onWrite rs = some (.ok x) →
    ∀ front d, front ++ [d] <+: w.conn.writeDones → ∃ taken ∈ x.accepted,
      w.conn.outBuffer.readable ++ wire (front.map (·.1)) ++ d.1.frame <+: taken

/-- **Callbacks mean sent**: a queued message is encoded into the out-buffer once, or waits for the
next `onWrite`; the callbacks of those encoded have been called, once; and each was called when the
socket had taken its message. -/
structure Confirmed (c : TcpConnection ℕ) (es : List ClientSendEvent) (w : ClientSender) :
    Prop where
  once : ∀ k < w.pushed.length, ((w.encoded ++ w.conn.writeDones).map (·.2)).count k = 1
  own : ∀ d ∈ w.encoded ++ w.conn.writeDones, w.pushed[d.2]? = some d.1
  inBuffer : w.conn.outBuffer.readable = wire (w.encoded.map (·.1))
  called : w.dones = w.encoded.map fun d => (d.1.stamped, d.2)
  acked : Along clientSendStep Acked ⟨c, [], [], []⟩ es

/-- In an `onWrite` with queued messages no write would block, and no callback queues a message. -/
def Unblocked (w : ClientSender) : ClientSendEvent → Prop
  | .pushSendMessage _ => True
  | .onWrite rs inner => (w.conn.writeDones ≠ [] → .again ∉ rs) ∧ inner = []

instance (w : ClientSender) (e : ClientSendEvent) : Decidable (Unblocked w e) :=
  match e with
  | .pushSendMessage _ => .isTrue trivial
  | .onWrite rs inner =>
    inferInstanceAs (Decidable ((w.conn.writeDones ≠ [] → .again ∉ rs) ∧ inner = []))

/-- What every step keeps: the numbers are those of the messages queued, each at most once, and what
was encoded is in the out-buffer, its callbacks called. -/
structure Enqueued (w : ClientSender) : Prop where
  connected : w.conn.state = .connected
  byClient : w.conn.connectionType = .byClient
  wellFormed : w.conn.outBuffer.WellFormed
  nodup : ((w.encoded ++ w.conn.writeDones).map (·.2)).Nodup
  own : ∀ d ∈ w.encoded ++ w.conn.writeDones, w.pushed[d.2]? = some d.1
  inBuffer : w.conn.outBuffer.readable = wire (w.encoded.map (·.1))
  called : w.dones = w.encoded.map fun d => (d.1.stamped, d.2)

/-- Every message is encoded or waits. -/
def AllQueued (w : ClientSender) : Prop :=
  ∀ k < w.pushed.length, k ∈ (w.encoded ++ w.conn.writeDones).map (·.2)

variable {w w' : ClientSender} {e : ClientSendEvent} {es : List ClientSendEvent}
  {out : TcpBuffer} {rs : List WriteResult} {acc accepted : List ByteString} {all : Bool}
  {c : TcpConnection κ} {inner : List TinyPBProtocol}

/-! ## The loop -/

/-- The loop is left without `is_write_all` exactly if a write would block. -/
theorem again_mem_iff (h : converse (writeTurn out) rs acc = some (accepted, all)) :
    .again ∈ rs ↔ all = false := by
  induction rs generalizing acc with
  | nil =>
    obtain ⟨-, rfl, -⟩ := writeLoop_nil h
    simp
  | cons r rs ih =>
    obtain ⟨-, hfirst⟩ := writeLoop_cons h
    rcases hfirst with ⟨rfl, hrest⟩ | ⟨n, -, rfl, hrest⟩ | ⟨rfl, -, -, rfl⟩ |
      ⟨n, -, rfl, rfl, -, rfl⟩
    · simpa using ih hrest
    · simpa using ih hrest
    · simp
    · simp

/-- Where it is left so, every write was short. -/
theorem short_of_blocked (h : converse (writeTurn out) rs [] = some (accepted, false))
    (hlen : out.readable.length = out.readAble) :
    ∀ taken ∈ accepted, taken.length < out.readable.length := by
  have hkeep : ∀ acc n, (∀ taken ∈ acc, taken.length < out.readable.length) →
      n < out.readAble →
      ∀ taken ∈ acc ++ [out.readable.take n], taken.length < out.readable.length := by
    intro acc n hacc hn taken htaken
    rcases List.mem_append.mp htaken with htaken | htaken
    · exact hacc taken htaken
    · obtain rfl := List.mem_singleton.mp htaken
      rw [List.length_take]
      omega
  rcases writeLoop_invariant h (by simp) hkeep with ⟨hall, -⟩ | ⟨-, -, -, -, -, ⟨⟩⟩
  exact hall

/-! ## onWrite of a client -/

/-- An `onWrite` of a client encodes the queued messages, and then is its loop. -/
theorem onWrite_byClient_iff (hstate : c.state = .connected)
    (hclient : c.connectionType = .byClient) {x : Writing κ} :
    c.onWrite rs = some (.ok x) ↔
      ∃ ms out accepted all, encode (c.writeDones.map (·.1)) c.outBuffer = .ok (ms, out) ∧
        converse (writeTurn out) rs [] = some (accepted, all) ∧
        x = afterWrite { c with outBuffer := out, writeDones := ms.zip (c.writeDones.map (·.2)) }
          accepted all := by
  rw [onWrite, if_neg (not_not_intro hstate), encodePending, hclient]
  cases hencode : encode (c.writeDones.map (·.1)) c.outBuffer with
  | error f => simp [Except.map]
  | ok r =>
    simp only [Except.map, Option.map_eq_some_iff, Except.ok.injEq]
    constructor
    · rintro ⟨⟨accepted, all⟩, hconv, rfl⟩
      exact ⟨r.1, r.2, accepted, all, rfl, hconv, rfl⟩
    · rintro ⟨ms, out, accepted, all, hr, hconv, rfl⟩
      obtain rfl := hr
      exact ⟨(accepted, all), hconv, rfl⟩

theorem afterWrite_byClient (hclient : c.connectionType = .byClient) (accepted : List ByteString)
    (all : Bool) :
    (c.afterWrite accepted all).accepted = accepted ∧
      (c.afterWrite accepted all).dones = c.writeDones ∧
      (c.afterWrite accepted all).conn.writeDones = [] ∧
      (c.afterWrite accepted all).conn.outBuffer = c.outBuffer ∧
      (c.afterWrite accepted all).conn.state = c.state ∧
      (c.afterWrite accepted all).conn.connectionType = c.connectionType := by
  unfold afterWrite
  cases all <;> simp [hclient]

/-- What an `onWrite` of a client does: the frames of the queued messages follow the earlier ones in
the out-buffer, the loop writes that, and all callbacks are called. -/
structure Written (c : TcpConnection κ) (rs : List WriteResult) (x : Writing κ) : Prop where
  connected : x.conn.state = .connected
  byClient : x.conn.connectionType = .byClient
  wellFormed : x.conn.outBuffer.WellFormed
  readable : x.conn.outBuffer.readable =
    c.outBuffer.readable ++ wire (c.writeDones.map (·.1))
  loop : converse (writeTurn x.conn.outBuffer) rs [] = some (x.accepted, !rs.contains .again)
  cleared : x.conn.writeDones = []
  dones : x.dones = c.writeDones.map fun d => (d.1.stamped, d.2)

theorem written_of_onWrite (hstate : c.state = .connected) (hclient : c.connectionType = .byClient)
    (hwf : c.outBuffer.WellFormed) {x : Writing κ} (h : c.onWrite rs = some (.ok x)) :
    Written c rs x := by
  obtain ⟨ms, out, accepted, all, hencode, hconv, rfl⟩ :=
    (onWrite_byClient_iff hstate hclient).mp h
  obtain ⟨rfl, hwf', hread, -⟩ := encode_eq hwf hencode
  obtain ⟨haccepted, hdones, hcleared, hout, hstate', hclient'⟩ :=
    afterWrite_byClient (c := { c with
      outBuffer := out
      writeDones := ((c.writeDones.map (·.1)).map stamped).zip (c.writeDones.map (·.2)) })
      hclient accepted all
  refine ⟨hstate'.trans hstate, hclient'.trans hclient, ?_, ?_, ?_, hcleared, ?_⟩
  · rw [hout]
    exact hwf'
  · rw [hout]
    exact hread
  · have hall : all = !rs.contains .again := by
      cases hagain : rs.contains .again
      · simpa using mt (again_mem_iff hconv).mpr (by simpa using hagain)
      · simpa using (again_mem_iff hconv).mp (by simpa using hagain)
    rw [hout, haccepted, ← hall]
    exact hconv
  · rw [hdones, List.map_map, List.zip_map']
    rfl

/-- The frame of a queued message is not empty, so there is something to write. -/
theorem wire_ne_nil {ds : List (TinyPBProtocol × κ)} (h : ds ≠ []) : wire (ds.map (·.1)) ≠ [] := by
  obtain ⟨d, ds, rfl⟩ := List.exists_cons_of_ne_nil h
  intro hwire
  have hlen := congrArg List.length hwire
  rw [List.map_cons, wire_cons, List.length_append, length_frame] at hlen
  have := d.1.named.frameLength_ge
  simp only [List.length_nil] at hlen
  omega

/-- **Callbacks are in time** exactly if no write would block: then the last write takes the whole
out-buffer, and else no write does. -/
theorem Enqueued.acked_iff (h : Enqueued w) {x : Writing ℕ}
    (hx : w.conn.onWrite rs = some (.ok x)) :
    Acked w (.onWrite rs inner) ↔ (w.conn.writeDones ≠ [] → .again ∉ rs) := by
  have hwritten := written_of_onWrite h.connected h.byClient h.wellFormed hx
  have hlen := hwritten.wellFormed.length_readable
  have hloop := hwritten.loop
  constructor
  · intro hacked hne hagain
    -- The frame of the last message ends where the out-buffer does.
    have hsplit := List.dropLast_append_getLast hne
    obtain ⟨taken, htaken, hpre⟩ := hacked x hx w.conn.writeDones.dropLast
      (w.conn.writeDones.getLast hne) ⟨[], (List.append_nil _).trans hsplit⟩
    have hwire : wire (w.conn.writeDones.dropLast.map (·.1)) ++
        (w.conn.writeDones.getLast hne).1.frame = wire (w.conn.writeDones.map (·.1)) := by
      conv_rhs => rw [← hsplit]
      rw [List.map_append, wire_append]
      simp
    rw [List.append_assoc, hwire, ← hwritten.readable] at hpre
    rw [List.contains_iff_mem.mpr hagain] at hloop
    exact absurd hpre.length_le (by have := short_of_blocked hloop hlen taken htaken; omega)
  · intro hfree x' hx' front d hpre
    obtain rfl := Except.ok.inj (Option.some.inj (hx.symm.trans hx'))
    have hne : w.conn.writeDones ≠ [] := by
      intro hnil
      rw [hnil, List.prefix_nil] at hpre
      simp at hpre
    rw [show rs.contains WriteResult.again = false by simpa using hfree hne] at hloop
    rcases writeAll_cases hloop hlen with hempty | ⟨writes, haccepted⟩
    · rw [hwritten.readable, List.append_eq_nil_iff] at hempty
      exact absurd hempty.2 (wire_ne_nil hne)
    · refine ⟨x.conn.outBuffer.readable, by rw [haccepted]; simp, ?_⟩
      obtain ⟨rest, hrest⟩ := hpre
      rw [hwritten.readable, ← hrest, List.append_assoc]
      simp [wire]

/-! ## Runs -/

theorem clientSendStep_cases (h : clientSendStep w e = some w') :
    (∃ m, e = .pushSendMessage m ∧
      w' = { w with
        conn := w.conn.pushSendMessage m w.pushed.length
        pushed := w.pushed ++ [m] }) ∨
    (∃ rs inner x, e = .onWrite rs inner ∧ w.conn.onWrite rs = some (.ok x) ∧
      w' = ⟨x.conn, w.pushed ++ inner, w.encoded ++ w.conn.writeDones, w.dones ++ x.dones⟩) := by
  cases e with
  | pushSendMessage m => exact .inl ⟨m, rfl, (Option.some.inj h).symm⟩
  | onWrite rs inner =>
    rw [clientSendStep, Option.ite_none_left_eq_some] at h
    obtain ⟨-, h⟩ := h
    split at h
    · rename_i x hx
      exact .inr ⟨rs, inner, x, rfl, hx, (Option.some.inj h).symm⟩
    · cases h

theorem Enqueued.lt_pushed (h : Enqueued w) {k : ℕ}
    (hk : k ∈ (w.encoded ++ w.conn.writeDones).map (·.2)) : k < w.pushed.length := by
  obtain ⟨d, hd, rfl⟩ := List.mem_map.mp hk
  exact (List.getElem?_eq_some_iff.mp (h.own d hd)).1

theorem Enqueued.step (h : Enqueued w) (hstep : clientSendStep w e = some w') : Enqueued w' := by
  have hkeep : ∀ (ms : List TinyPBProtocol), ∀ d ∈ w.encoded ++ w.conn.writeDones,
      (w.pushed ++ ms)[d.2]? = some d.1 := by
    intro ms d hd
    rw [List.getElem?_append_left (List.getElem?_eq_some_iff.mp (h.own d hd)).1]
    exact h.own d hd
  rcases clientSendStep_cases hstep with ⟨m, rfl, rfl⟩ | ⟨rs, inner, x, rfl, hx, rfl⟩
  · refine ⟨h.connected, h.byClient, h.wellFormed, ?_, ?_, h.inBuffer, h.called⟩
    · dsimp only [pushSendMessage]
      rw [← List.append_assoc, List.map_append]
      refine List.Nodup.append h.nodup (List.nodup_singleton _) ?_
      -- The number of the message is new.
      rw [List.map_singleton, List.disjoint_singleton]
      exact fun hmem => lt_irrefl _ (h.lt_pushed hmem)
    · intro d hd
      simp only [pushSendMessage, ← List.append_assoc, List.mem_append (s := _ ++ _),
        List.mem_singleton] at hd
      rcases hd with hd | rfl
      · exact hkeep [m] d hd
      · simp
  · have hwritten := written_of_onWrite h.connected h.byClient h.wellFormed hx
    refine ⟨hwritten.connected, hwritten.byClient, hwritten.wellFormed, ?_, ?_, ?_, ?_⟩
    · simpa [hwritten.cleared] using h.nodup
    · simpa [hwritten.cleared] using hkeep inner
    · rw [hwritten.readable, h.inBuffer, List.map_append, wire_append]
    · rw [hwritten.dones, h.called, List.map_append]

/-- A message gets lost when a callback queues it, and then for good. -/
theorem Enqueued.allQueued_step_iff (h : Enqueued w) (hstep : clientSendStep w e = some w') :
    AllQueued w' ↔ AllQueued w ∧ ∀ rs inner, e = .onWrite rs inner → inner = [] := by
  rcases clientSendStep_cases hstep with ⟨m, rfl, rfl⟩ | ⟨rs, inner, x, rfl, hx, rfl⟩
  · have hnumbers : (w.encoded ++ (w.conn.pushSendMessage m w.pushed.length).writeDones).map (·.2) =
        (w.encoded ++ w.conn.writeDones).map (·.2) ++ [w.pushed.length] := by
      simp [pushSendMessage]
    simp only [AllQueued, hnumbers, List.length_append, List.length_singleton, List.mem_append,
      List.mem_singleton, reduceCtorEq, false_implies, implies_true, and_true]
    constructor
    · intro hall k hk
      exact (hall k (by omega)).resolve_right (by omega)
    · intro hall k hk
      rcases Nat.lt_succ_iff_lt_or_eq.mp hk with hk | rfl
      · exact .inl (hall k hk)
      · exact .inr rfl
  · have hwritten := written_of_onWrite h.connected h.byClient h.wellFormed hx
    simp only [AllQueued, hwritten.cleared, List.append_nil, List.length_append]
    constructor
    · intro hall
      have hinner : inner = [] := by
        by_contra hne
        have hpos := List.length_pos_iff.mpr hne
        exact lt_irrefl _ (h.lt_pushed (hall w.pushed.length (by omega)))
      refine ⟨fun k hk => hall k (by omega), ?_⟩
      rintro rs' inner' heq
      obtain ⟨-, rfl⟩ := ClientSendEvent.onWrite.inj heq
      exact hinner
    · rintro ⟨hall, hnone⟩ k hk
      rw [hnone rs inner rfl, List.length_nil, Nat.add_zero] at hk
      exact hall k hk

/-- A step is in order exactly if it loses no message and its callbacks are in time. -/
theorem Enqueued.unblocked_iff (h : Enqueued w) (hstep : clientSendStep w e = some w') :
    Unblocked w e ↔ (∀ rs inner, e = .onWrite rs inner → inner = []) ∧ Acked w e := by
  rcases clientSendStep_cases hstep with ⟨m, rfl, rfl⟩ | ⟨rs, inner, x, rfl, hx, rfl⟩
  · simp [Unblocked, Acked]
  · rw [h.acked_iff hx, Unblocked, and_comm]
    refine and_congr_left' ⟨?_, fun hall => hall rs inner rfl⟩
    rintro rfl rs' inner' heq
    exact (ClientSendEvent.onWrite.inj heq).2.symm

/-- **All callbacks mean that their messages are sent** exactly if no write of queued messages would
block, and no callback queues a message. -/
theorem confirmed_iff (c : TcpConnection ℕ) (hstate : c.state = .connected)
    (hclient : c.connectionType = .byClient) (hwf : c.outBuffer.WellFormed)
    (hempty : c.outBuffer.readable = []) (hnone : c.writeDones = [])
    (hexec : exec clientSendStep ⟨c, [], [], []⟩ es = some w) :
    Confirmed c es w ↔ Along clientSendStep Unblocked ⟨c, [], [], []⟩ es := by
  obtain ⟨hI, hiff⟩ : Enqueued w ∧ (AllQueued w ∧ Along clientSendStep Acked ⟨c, [], [], []⟩ es ↔
      Along clientSendStep Unblocked ⟨c, [], [], []⟩ es) := by
    refine exec_history (I := fun es w => Enqueued w ∧
      (AllQueued w ∧ Along clientSendStep Acked ⟨c, [], [], []⟩ es ↔
        Along clientSendStep Unblocked ⟨c, [], [], []⟩ es)) ?_ ?_ hexec
    · refine ⟨⟨hstate, hclient, hwf, by simp [hnone], by simp [hnone], by simp [hempty], rfl⟩, ?_⟩
      simp [AllQueued, Along]
    · rintro es w e w' hexec ⟨hI, hiff⟩ hstep
      refine ⟨hI.step hstep, ?_⟩
      rw [hI.allQueued_step_iff hstep, along_snoc hexec, along_snoc hexec, ← hiff,
        hI.unblocked_iff hstep]
      tauto
  rw [← hiff]
  constructor
  · intro h
    refine ⟨fun k hk => ?_, h.acked⟩
    exact List.count_pos_iff.mp (by rw [h.once k hk]; exact Nat.one_pos)
  · rintro ⟨hall, hacked⟩
    refine ⟨fun k hk => ?_, hI.own, hI.inBuffer, hI.called, hacked⟩
    exact List.count_eq_one_of_mem hI.nodup (hall k hk)

/-- A client's connection, with nothing to send. -/
def clientConnection : TcpConnection ℕ :=
  { inBuffer := .new 128, outBuffer := .new 128, state := .connected, connectionType := .byClient }

/-- Two messages are sent together, after a short write, and one more. -/
def sentInFull : List ClientSendEvent :=
  [.pushSendMessage reply₁, .pushSendMessage reply₂, .onWrite [.count 20, .count 54] [],
    .pushSendMessage reply₁, .onWrite [.count 81] []]

theorem confirmed_sentInFull : ∃ w, exec clientSendStep ⟨clientConnection, [], [], []⟩ sentInFull =
    some w ∧ Confirmed clientConnection sentInFull w := by
  have hrun : (exec clientSendStep ⟨clientConnection, [], [], []⟩ sentInFull).isSome := by
    decide +kernel
  obtain ⟨w, hw⟩ := Option.isSome_iff_exists.mp hrun
  exact ⟨w, hw, (confirmed_iff clientConnection rfl rfl (by decide +kernel) (by decide +kernel) rfl
    hw).mpr (by decide +kernel)⟩

/-- The first write would block: the callback runs, and the socket has taken nothing. -/
theorem not_confirmed_blocked : ¬ ∀ (c : TcpConnection ℕ) (es : List ClientSendEvent)
    (w : ClientSender), c.state = .connected → c.connectionType = .byClient →
    c.outBuffer.WellFormed → c.outBuffer.readable = [] → c.writeDones = [] →
    exec clientSendStep ⟨c, [], [], []⟩ es = some w → Confirmed c es w := by
  intro h
  have hrun : (exec clientSendStep ⟨clientConnection, [], [], []⟩
      [.pushSendMessage reply₁, .onWrite [.again] []]).isSome := by decide +kernel
  obtain ⟨w, hw⟩ := Option.isSome_iff_exists.mp hrun
  have hconfirmed := h clientConnection _ w rfl rfl (by decide +kernel) (by decide +kernel) rfl hw
  have hwrite : (((clientConnection.pushSendMessage reply₁ 0).onWrite [.again]).map
      (Except.map Writing.accepted)) = some (.ok []) := by decide +kernel
  obtain ⟨r, hr, hx⟩ := Option.map_eq_some_iff.mp hwrite
  cases r with
  | error f => cases hx
  | ok x =>
    obtain ⟨hacked, -⟩ := hconfirmed.acked.2 _ rfl
    obtain ⟨taken, htaken, -⟩ := hacked x hr [] (reply₁, 0) List.prefix_rfl
    rw [show x.accepted = [] from Except.ok.inj hx] at htaken
    cases htaken

end TcpConnection

end TalonRPC
