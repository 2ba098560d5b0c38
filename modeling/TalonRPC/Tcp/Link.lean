import TalonRPC.TinyPB.Cuts
import TalonRPC.Tcp.Returns
import TalonRPC.Tcp.Sends

/-!
# Two connections and the stream between them

The bytes one connection writes come to the in-buffer of the other, in order but in pieces of any
size. Since `onWrite` starts over with the first byte of the out-buffer, the stream carries all
messages encoded so far whenever it is called; it still is a stream of whole messages, as long as
every write takes the out-buffer as a whole.

## Main definitions

* `WritesWhole`, `ReadsShort`: the results of the system calls on which no byte is lost or repeated
  inside a message
* `Link c stream d encoded taken pending`: the messages in the out-buffer of `c`, those `d` has
  taken off the stream, and those that are on it or partly in the in-buffer of `d`

## Main results

* `onRead_of_short`, `flatten_accepted`: what short reads and whole writes do
* `Link.reply`, `Link.onWrite_byServer`, `Link.onWrite_byClient`, `Link.onRead`: the rules of a link
-/

namespace TalonRPC.TcpConnection

open Bytes Machine TinyPBCoder TinyPBProtocol

variable {κ κ' : Type}

/-- Every write of an `onWrite` takes the whole out-buffer, would block or fails. -/
def WritesWhole (c : TcpConnection κ) (rs : List WriteResult) : Prop :=
  ∀ n, .count n ∈ rs → c.toWrite ≤ n

/-- Every read of an `onRead` returns fewer bytes than it asks for. -/
def ReadsShort (c : TcpConnection κ) (rs : List ReadResult) : Prop :=
  ∀ bs, .bytes bs ∈ rs → bs.length < requested c.inBuffer

/-- The out-buffer holds the frames of the messages. -/
structure Outgoing (c : TcpConnection κ) (encoded : List TinyPBProtocol) : Prop where
  wellFormed : c.outBuffer.WellFormed
  readable : c.outBuffer.readable = wire encoded
  sendable : ∀ m ∈ encoded, Sendable m

/-- The in-buffer and the bytes under way are the frames of the messages, of which the in-buffer
holds less than the first. -/
structure Incoming (d : TcpConnection κ) (stream : ByteString) (pending : List TinyPBProtocol) :
    Prop where
  wellFormed : d.inBuffer.WellFormed
  capacity : 1 ≤ d.inBuffer.buffer.length
  bytes : d.inBuffer.readable ++ stream = wire pending
  part : ∀ m rest, pending = m :: rest → d.inBuffer.readable.length < m.frame.length

/-- **A link** from the connection `c` to the connection `d`: the messages in the out-buffer of
`c`, those `d` has taken, and those still to come to it. Only messages from the out-buffer are
carried; and when `c` has nothing more to write, all of them have been. -/
structure Link (c : TcpConnection κ) (stream : ByteString) (d : TcpConnection κ')
    (encoded taken pending : List TinyPBProtocol) : Prop where
  outgoing : Outgoing c encoded
  incoming : d.state = .connected → Incoming d stream pending
  carried : ∀ m ∈ taken ++ pending, m ∈ encoded
  sent : c.state = .connected → c.fdEvent.outEvent = false → ∀ m ∈ encoded, m ∈ taken ++ pending

variable {c c' : TcpConnection κ} {d d' : TcpConnection κ'} {b b' out : TcpBuffer}
  {rs : List ReadResult} {ws : List WriteResult} {accepted : List ByteString} {all : Bool}
  {stream : ByteString} {encoded taken pending ms ms' : List TinyPBProtocol} {n : ℕ}

/-! ## Short reads and whole writes -/

/-- The loop of `onRead`, when every read is short: the in-buffer gets all bytes. -/
theorem readAll_of_short (hwf : b.WellFormed) (hcap : 1 ≤ b.buffer.length)
    (hshort : ∀ bs, .bytes bs ∈ rs → bs.length < requested b)
    (h : converse readTurn rs b = some (.ok (.readAll b'))) :
    b'.WellFormed ∧ b'.readable = b.readable ++ received rs ∧ b'.writeIndex < b'.buffer.length := by
  by_cases hgrow : Growable b
  swap
  · have hturn : readTurn b = .done (.error .lengthError) := by rw [readTurn, grown_error hwf hgrow]
    cases ((converse_of_done hturn).mp h).2
  induction rs generalizing b with
  | nil =>
    obtain ⟨b₁, hgrown, -⟩ := exists_grown hwf hgrow
    have hturn := converse_nil.mp h
    rw [readTurn_of_grown hgrown] at hturn
    cases hturn
  | cons r rs ih =>
    obtain ⟨b₁, hgrown, hwf₁, hread₁, hroom₁⟩ := exists_grown hwf hgrow
    have hturn := readTurn_of_grown hgrown
    have hpos := requested_pos hwf hcap
    cases r with
    | bytes bs =>
      have hlt : bs.length < b₁.writeAble := hroom₁ ▸ hshort bs (by simp)
      obtain ⟨rfl, hb'⟩ := (converse_done hturn (readAnswer_short hlt)).mp h
      cases hb'
      obtain ⟨hwf', hread', hlen', hroom'⟩ := TcpBuffer.receive_of_lt hwf₁ hlt
      refine ⟨hwf', ?_, by omega⟩
      rw [hread', hread₁, received, List.flatMap_singleton, ReadResult.data]
    | closed => cases ((converse_done hturn rfl).mp h).2
    | again =>
      obtain ⟨rfl, hb'⟩ := (converse_done hturn rfl).mp h
      cases hb'
      refine ⟨hwf₁, ?_, ?_⟩
      · rw [hread₁]
        exact (List.append_nil _).symm
      · unfold TcpBuffer.writeAble at hroom₁
        omega
    | error =>
      rw [converse_next hturn rfl] at h
      have hrequested : requested b₁ = requested b := by
        rw [requested, if_neg (by omega), hroom₁]
      have hcap₁ : 1 ≤ b₁.buffer.length := by
        unfold TcpBuffer.writeAble at hroom₁
        omega
      obtain ⟨hwf', hread', hroom'⟩ := ih hwf₁ hcap₁
        (fun bs hbs => hrequested ▸ hshort bs (List.mem_cons_of_mem _ hbs)) h
        fun hzero => by omega
      exact ⟨hwf', by rw [hread', hread₁]; rfl, hroom'⟩

/-- **Short reads lose nothing**: `excute` gets the earlier readable bytes and all bytes read. -/
theorem onRead_of_short (hstate : c.state = .connected) (hwf : c.inBuffer.WellFormed)
    (hcap : 1 ≤ c.inBuffer.buffer.length) (hshort : c.ReadsShort rs)
    (h : c.onRead rs = some (.ok (.excutes c'))) :
    ∃ b, c' = { c with inBuffer := b } ∧ b.WellFormed ∧
      b.readable = c.inBuffer.readable ++ received rs ∧ b.writeIndex < b.buffer.length := by
  obtain ⟨b, hconv, rfl⟩ := (onRead_eq_excutes_iff hstate).mp h
  exact ⟨b, rfl, readAll_of_short hwf hcap hshort hconv⟩

/-- Where `onRead` returns without coming to `excute`, the connection is not connected. -/
theorem state_of_returns (h : c.onRead rs = some (.ok (.returns c'))) :
    c'.state ≠ .connected ∧ c'.outBuffer = c.outBuffer ∧
      c'.connectionType = c.connectionType ∧ c'.writeDones = c.writeDones := by
  unfold onRead at h
  split_ifs at h with hstate hrs
  · obtain rfl : c = c' := by simpa using h
    exact ⟨hstate, rfl, rfl, rfl⟩
  · rw [not_not] at hstate
    obtain ⟨left, -, hleft⟩ := Option.map_eq_some_iff.mp h
    rcases left with e | b | b
    · cases hleft
    · cases hleft
    · obtain rfl : { c with inBuffer := b }.clear = c' := by
        simpa [Except.map, afterRead] using hleft
      simp [clear, hstate]

/-- **Whole writes** take nothing or the out-buffer. -/
theorem flatten_accepted (h : converse (writeTurn out) ws [] = some (accepted, all))
    (hlen : out.readable.length = out.readAble) (hwhole : ∀ n, .count n ∈ ws → out.readAble ≤ n) :
    accepted.flatten = if all then out.readable else [] := by
  induction ws with
  | nil =>
    obtain ⟨rfl, rfl, hzero⟩ := writeLoop_nil h
    rw [if_pos rfl, List.flatten_nil, List.eq_nil_of_length_eq_zero (hlen.trans hzero)]
  | cons w ws ih =>
    obtain ⟨-, hfirst⟩ := writeLoop_cons h
    rcases hfirst with ⟨rfl, hrest⟩ | ⟨n, hn, rfl, -⟩ | ⟨rfl, rfl, rfl, rfl⟩ |
      ⟨n, hn, rfl, rfl, rfl, rfl⟩
    · exact ih hrest fun n hn => hwhole n (List.mem_cons_of_mem _ hn)
    · exact absurd (hwhole n (by simp)) (by omega)
    · simp
    · rw [if_pos rfl, List.nil_append, List.flatten_singleton, List.take_of_length_le (by omega)]

/-! ## The rules of a link -/

/-- What a sender does to its in-buffer or to its callbacks does not matter. -/
theorem Link.of_sender (h : Link c stream d encoded taken pending)
    (hout : c'.outBuffer = c.outBuffer)
    (hevent : c'.state = .connected → c'.fdEvent.outEvent = false →
      c.state = .connected ∧ c.fdEvent.outEvent = false) :
    Link c' stream d encoded taken pending where
  outgoing := ⟨hout ▸ h.outgoing.wellFormed, hout ▸ h.outgoing.readable, h.outgoing.sendable⟩
  incoming := h.incoming
  carried := h.carried
  sent hstate hno := h.sent (hevent hstate hno).1 (hevent hstate hno).2

/-- What a receiver does to its out-buffer does not matter. -/
theorem Link.of_receiver (h : Link c stream d encoded taken pending)
    (hin : d'.inBuffer = d.inBuffer) (hstate : d'.state = .connected → d.state = .connected) :
    Link c stream d' encoded taken pending where
  outgoing := h.outgoing
  incoming hd' := by
    obtain ⟨hwf, hcap, hbytes, hpart⟩ := h.incoming (hstate hd')
    exact ⟨hin ▸ hwf, hin ▸ hcap, hin ▸ hbytes, hin ▸ hpart⟩
  carried := h.carried
  sent := h.sent

/-- **More messages are encoded.** -/
theorem Link.encode (h : Link c stream d encoded taken pending)
    (hms : ∀ m ∈ ms, m.Encodable) (hencode : encode ms c.outBuffer = .ok (ms', out))
    (hout : c'.outBuffer = out) (hevent : c'.fdEvent.outEvent = true) :
    Link c' stream d (encoded ++ ms) taken pending := by
  obtain ⟨-, hwf, hread, hlen⟩ := encode_eq h.outgoing.wellFormed hencode
  refine ⟨⟨hout ▸ hwf, ?_, fun m hm => ?_⟩, h.incoming, fun m hm => ?_, fun _ hno => ?_⟩
  · rw [hout, hread, h.outgoing.readable, wire_append]
  · rcases List.mem_append.mp hm with hm | hm
    · exact h.outgoing.sendable m hm
    · exact ⟨hms m hm, hlen m hm⟩
  · exact List.mem_append_left _ (h.carried m hm)
  · exact absurd (hevent.symm.trans hno) (by decide)

/-- A `reply` encodes the messages, and listens. -/
theorem exists_encode_of_reply (h : c.reply ms = .ok (ms', c')) :
    ∃ out, TinyPBCoder.encode ms c.outBuffer = .ok (ms', out) ∧
      c' = { c with outBuffer := out }.listenWrite := by
  unfold TcpConnection.reply at h
  cases hencode : TinyPBCoder.encode ms c.outBuffer with
  | error e =>
    rw [hencode] at h
    cases h
  | ok left =>
    rw [hencode] at h
    obtain ⟨rfl, rfl⟩ := Prod.mk.inj (Except.ok.inj h)
    exact ⟨left.2, rfl, rfl⟩

theorem Link.reply (h : Link c stream d encoded taken pending) (hms : ∀ m ∈ ms, m.Encodable)
    (hreply : c.reply ms = .ok (ms', c')) : Link c' stream d (encoded ++ ms) taken pending := by
  obtain ⟨out, hencode, rfl⟩ := exists_encode_of_reply hreply
  exact h.encode hms hencode rfl rfl

/-- The loop of `onWrite` puts all encoded messages on the stream, once more, or nothing. -/
theorem Link.write (h : Link c stream d encoded taken pending)
    (hwhole : ∀ n, .count n ∈ ws → c.outBuffer.readAble ≤ n)
    (hloop : converse (writeTurn c.outBuffer) ws [] = some (accepted, all))
    (hout : c'.outBuffer = c.outBuffer)
    (hevent : c'.fdEvent.outEvent = if all then false else c.fdEvent.outEvent)
    (hstate : c'.state = c.state) :
    Link c' (stream ++ accepted.flatten) d encoded taken
      (pending ++ if all then encoded else []) := by
  obtain ⟨hwf, hread, hsendable⟩ := h.outgoing
  rw [flatten_accepted hloop hwf.length_readable hwhole]
  cases all with
  | false =>
    simp only [Bool.false_eq_true, if_false, List.append_nil] at hevent ⊢
    exact h.of_sender hout fun hc' hno => ⟨hstate ▸ hc', hevent ▸ hno⟩
  | true =>
    simp only [if_true] at hevent ⊢
    refine ⟨⟨hout ▸ hwf, hout ▸ hread, hsendable⟩, fun hd => ?_, fun m hm => ?_, fun _ _ m hm => ?_⟩
    · obtain ⟨hwf', hcap, hbytes, hpart⟩ := h.incoming hd
      refine ⟨hwf', hcap, ?_, fun m rest hm => ?_⟩
      · rw [← List.append_assoc, hbytes, hread, wire_append]
      · -- Where nothing was to come, the in-buffer is empty.
        cases pending with
        | nil =>
          have hempty := (List.append_eq_nil_iff.mp hbytes).1
          rw [hempty, List.length_nil]
          exact List.length_pos_iff.mpr (frame_ne_nil m)
        | cons m' pending =>
          obtain ⟨rfl, -⟩ := List.cons_eq_cons.mp hm
          exact hpart m' pending rfl
    · simp only [List.mem_append] at hm
      rcases hm with hm | hm | hm
      · exact h.carried m (List.mem_append_left _ hm)
      · exact h.carried m (List.mem_append_right _ hm)
      · exact hm
    · exact List.mem_append_right _ (List.mem_append_right _ hm)

/-- **An `onWrite` of a server connection.** -/
theorem Link.onWrite_byServer (h : Link c stream d encoded taken pending)
    (hserver : c.connectionType = .byServer) (hwhole : c.WritesWhole ws) {x : Writing κ}
    (hx : c.onWrite ws = some (.ok x)) :
    (∃ more, Link x.conn (stream ++ x.accepted.flatten) d encoded taken (pending ++ more)) ∧
      x.conn.inBuffer = c.inBuffer ∧ x.conn.state = c.state ∧
      x.conn.connectionType = .byServer := by
  by_cases hstate : c.state = .connected
  swap
  · rw [onWrite, if_pos hstate] at hx
    split_ifs at hx
    obtain rfl := Except.ok.inj (Option.some.inj hx)
    refine ⟨⟨[], ?_⟩, rfl, rfl, hserver⟩
    simpa using h
  obtain ⟨accepted, all, hloop, rfl⟩ := (onWrite_eq_some_iff hstate hserver).mp hx
  obtain ⟨haccepted, -, hout, hstate', htype⟩ := afterWrite_byServer hserver accepted all
  rw [haccepted]
  refine ⟨⟨_, h.write (fun n hn => ?_) hloop hout ?_
    hstate'⟩, ?_, hstate', htype.trans hserver⟩
  · have := hwhole n hn
    unfold toWrite at this
    omega
  all_goals unfold afterWrite; cases all <;> simp [hserver]

/-- **An `onWrite` of a client connection** encodes the queued messages first. -/
theorem Link.onWrite_byClient (h : Link c stream d encoded taken pending)
    (hstate : c.state = .connected) (hclient : c.connectionType = .byClient)
    (hms : ∀ p ∈ c.writeDones, p.1.Encodable)
    (hlisten : c.writeDones ≠ [] → c.fdEvent.outEvent = true) (hwhole : c.WritesWhole ws)
    {x : Writing κ} (hx : c.onWrite ws = some (.ok x)) :
    (∃ more, Link x.conn (stream ++ x.accepted.flatten) d (encoded ++ c.writeDones.map (·.1)) taken
      (pending ++ more)) ∧ x.conn.inBuffer = c.inBuffer := by
  obtain ⟨ms, out, accepted, all, hencode, hloop, rfl⟩ :=
    (onWrite_byClient_iff hstate hclient).mp hx
  obtain ⟨-, hwf, hread, -⟩ := encode_eq h.outgoing.wellFormed hencode
  -- When the loop starts, the frames of the queued messages are in the out-buffer.
  set c₁ : TcpConnection κ :=
    { c with outBuffer := out, writeDones := ms.zip (c.writeDones.map (·.2)) } with hc₁
  have hlink : Link c₁ stream d (encoded ++ c.writeDones.map (·.1)) taken pending := by
    by_cases hnone : c.writeDones = []
    · rw [hnone] at hencode ⊢
      cases hencode
      rw [List.map_nil, List.append_nil]
      exact h.of_sender rfl fun hc hno => ⟨hc, hno⟩
    · refine h.encode (fun m hm => ?_) hencode rfl (hlisten hnone)
      obtain ⟨p, hp, rfl⟩ := List.mem_map.mp hm
      exact hms p hp
  obtain ⟨haccepted, -, -, hout, hstate', -⟩ := afterWrite_byClient (c := c₁) hclient accepted all
  rw [haccepted]
  refine ⟨⟨_, hlink.write (fun n hn => ?_) hloop hout ?_
    hstate'⟩, ?_⟩
  · have hn := hwhole n hn
    rw [toWrite, hclient] at hn
    rw [← hwf.length_readable, hread, List.length_append, h.outgoing.wellFormed.length_readable]
    exact hn
  all_goals unfold afterWrite; cases all <;> simp [hc₁, hclient]

/-- **Reading and decoding** takes the messages off the stream that are complete, one after the
other. -/
theorem Link.onRead (h : Link c (received rs ++ stream) d encoded taken pending)
    (hstate : d.state = .connected) (hshort : d.ReadsShort rs)
    (hread : d.onRead rs = some (.ok (.excutes d'))) (hcuts : CutsQuietly d'.inBuffer)
    (hdecode : decode n [] d'.inBuffer = some (.ok (ms, b))) :
    ∃ now later, pending = now ++ later ∧ ms = now.map TinyPBProtocol.received ∧
      Link c stream { d' with inBuffer := b } encoded (taken ++ now) later := by
  obtain ⟨hwf, hcap, hbytes, hpart⟩ := h.incoming hstate
  obtain ⟨b₁, rfl, hwf₁, hread₁, hroom₁⟩ := onRead_of_short hstate hwf hcap hshort hread
  rw [← List.append_assoc, ← hread₁] at hbytes
  have hpending : ∀ m ∈ pending, Sendable m :=
    fun m hm => h.outgoing.sendable m (h.carried m (List.mem_append_right _ hm))
  obtain ⟨b₂, hdecodes, hwf₂, hread₂, hroom₂⟩ :=
    decodes_drain hwf₁ hroom₁ hpending ⟨stream, hbytes⟩ hcuts
  cases Ends.unique (hdecodes []) ⟨n, hdecode⟩
  have hitems := drain_items frame pending b₁.readable
  refine ⟨_, (drain frame pending b₁.readable).pending, hitems.symm, rfl, h.outgoing,
    fun _ => ⟨hwf₂, Nat.one_le_of_lt hroom₂, ?_, fun m rest hm => ?_⟩, ?_, ?_⟩
  · rw [hread₂]
    exact drain_rest_append_eq hbytes
  · rw [hread₂]
    exact length_drain_rest_lt hm
  · rw [List.append_assoc, hitems]
    exact h.carried
  · rw [List.append_assoc, hitems]
    exact h.sent

/-- A receiver that is not connected any more takes nothing off the stream. -/
theorem Link.returns {stream' : ByteString} (h : Link c stream d encoded taken pending)
    (hstate : d'.state ≠ .connected) : Link c stream' d' encoded taken pending :=
  ⟨h.outgoing, fun hd => absurd hd hstate, h.carried, h.sent⟩

end TalonRPC.TcpConnection
