import Mathlib.Data.List.Induction
import TalonRPC.Bytes.Framing
import TalonRPC.TinyPB.RoundTrip

/-!
# Decoding a stream in pieces

A stream of encoded messages arrives in chunks, and `decode` is called after each of them. What it
should do is what the ideal receiver does: take the messages that are complete, and keep the bytes
of the one that is not. It does, as long as the bytes it keeps are quiet: the scan of an incomplete
frame goes on inside it, so any start marker in there is taken for the start of a frame, and its
length is read wherever one byte of it has arrived.

## Main definitions

* `Feeds b chunks ms b'`: a run of the receiver, from the buffer `b` to `b'`
* `ideal`: the buffers of a receiver that takes complete messages only
* `Quiet`: buffers in which no frame closes, and all length fields lie below the write index
* `SegmentsAlike`: the receiver does what the ideal one does, wherever the stream is cut

## Main results

* `segmentsAlike_iff`: the receiver does what the ideal one does exactly if the bytes kept are quiet
* `not_segmentsAlike_outer`: a complete message in the payload of an incomplete one is delivered
-/

namespace TalonRPC.TinyPBCoder

open Bytes Machine TinyPBProtocol

/-- A run of the receiver: chunks are appended to the buffer, and `decode` is called after each. -/
inductive Feeds : TcpBuffer → List ByteString → List TinyPBProtocol → TcpBuffer → Prop
  | nil (b : TcpBuffer) : Feeds b [] [] b
  | snoc {b b₁ b₂ : TcpBuffer} {chunks : List ByteString} {chunk : ByteString}
      {ms ms' : List TinyPBProtocol} : Feeds b chunks ms b₁ → Decodes (b₁.receive chunk) ms' b₂ →
      Feeds b (chunks ++ [chunk]) (ms ++ ms') b₂

/-- One chunk, for a receiver that takes exactly the messages that are complete: the messages that
are still to come, and the buffer. -/
def keepUp (s : List TinyPBProtocol × TcpBuffer) (chunk : ByteString) :
    List TinyPBProtocol × TcpBuffer :=
  let d := drain frame s.1 (s.2.readable ++ chunk)
  (d.pending, dropFrames (s.2.receive chunk) d.taken)

/-- The buffer of the ideal receiver after the chunks of a stream of `msgs`. -/
def ideal (msgs : List TinyPBProtocol) (b : TcpBuffer) (chunks : List ByteString) :
    List TinyPBProtocol × TcpBuffer :=
  chunks.foldl keepUp (msgs, b)

/-- No frame closes in the buffer, and behind every start marker the length lies below the write
index and declares no end below the vector. -/
def Quiet (b : TcpBuffer) : Prop :=
  Scannable b.buffer b.writeIndex 0 b.writeIndex b.readIndex ∧
    ∀ k, b.readIndex ≤ k → ¬ Closes b.buffer b.writeIndex k

instance (b : TcpBuffer) : Decidable (Quiet b) :=
  decidable_of_iff
    (Scannable b.buffer b.writeIndex 0 b.writeIndex b.readIndex ∧
      ∀ k < b.writeIndex, b.readIndex ≤ k → ¬ Closes b.buffer b.writeIndex k)
    (and_congr_right fun _ =>
      ⟨fun h k hk hc => h k (Nat.lt_of_succ_lt hc.1.2) hk hc, fun h k _ => h k⟩)

/-- A number is read below the index `w`. -/
def Access.ReadsBelow (w : ℕ) : Access → Prop
  | .load index size => size = 4 → index + size ≤ w
  | _ => True

/-- A list of messages arrives in chunks at a buffer without readable bytes, which has spare
capacity for each of them. -/
structure Arrives (b : TcpBuffer) (msgs : List TinyPBProtocol) (chunks : List ByteString) :
    Prop where
  wellFormed : b.WellFormed
  empty : b.readable = []
  encodable : ∀ m ∈ msgs, m.Encodable
  stream : chunks.flatten = wire msgs
  room : ∀ cs c cs', chunks = cs ++ c :: cs' → c.length < (ideal msgs b cs).2.writeAble

/-- **The receiver does not depend on the cuts**: after every chunk `decode` returns, having
delivered exactly the messages whose frames are complete, and the bytes of the incomplete one are
left; in the end all messages are delivered; and no number is read beyond the write index. -/
structure SegmentsAlike (b : TcpBuffer) (msgs : List TinyPBProtocol) (chunks : List ByteString) :
    Prop where
  delivers : ∀ cs cs', chunks = cs ++ cs' → ∃ b',
    Feeds b cs ((drain frame msgs cs.flatten).taken.map received) b' ∧
      b'.readable = (drain frame msgs cs.flatten).rest
  total : ∃ b', Feeds b chunks (msgs.map received) b'
  reads : ∀ cs c cs' ms b₁, chunks = cs ++ c :: cs' → Feeds b cs ms b₁ →
    ∀ ts b₂, Takes (b₁.receive c) ts b₂ → (iteration b₂).All (Access.ReadsBelow b₂.writeIndex)

variable {b b' c : TcpBuffer} {msgs : List TinyPBProtocol} {chunks : List ByteString}

/-! ## The ideal receiver -/

theorem ideal_snoc (msgs : List TinyPBProtocol) (b : TcpBuffer) (cs : List ByteString)
    (c : ByteString) : ideal msgs b (cs ++ [c]) = keepUp (ideal msgs b cs) c := by
  rw [ideal, List.foldl_append]
  rfl

theorem settled_dropFrames (h : b.Settled) (ms : List TinyPBProtocol) :
    (dropFrames b ms).Settled := by
  induction ms generalizing b with
  | nil => exact h
  | cons m ms ih => exact ih (h.moveReadIndex _)

/-- The ideal receiver after the chunks `cs` holds the messages that are still to come, and the
bytes of the incomplete one. -/
structure Holds (msgs : List TinyPBProtocol) (b : TcpBuffer) (cs : List ByteString) : Prop where
  pending : (ideal msgs b cs).1 = (drain frame msgs cs.flatten).pending
  readable : (ideal msgs b cs).2.readable = (drain frame msgs cs.flatten).rest
  wellFormed : (ideal msgs b cs).2.WellFormed

theorem drain_frame_nil (msgs : List TinyPBProtocol) : drain frame msgs [] = ⟨[], msgs, []⟩ := by
  apply drain_nil
  intro m _ hempty
  have hge := m.named.frameLength_ge
  rw [← length_frame, hempty, List.length_nil] at hge
  omega

theorem Arrives.holds_nil (h : Arrives b msgs chunks) : Holds msgs b [] := by
  refine ⟨?_, ?_, h.wellFormed⟩ <;> rw [List.flatten_nil, drain_frame_nil]
  · rfl
  · exact h.empty

/-- What one more chunk does: it completes the messages `ms`, and the ideal receiver takes them. -/
structure Completes (msgs : List TinyPBProtocol) (b : TcpBuffer) (cs : List ByteString)
    (c : ByteString) (ms : List TinyPBProtocol) : Prop where
  encodable : ∀ m ∈ ms, m.Encodable
  wellFormed : ((ideal msgs b cs).2.receive c).WellFormed
  room : ((ideal msgs b cs).2.receive c).writeIndex < ((ideal msgs b cs).2.receive c).buffer.length
  readable : ((ideal msgs b cs).2.receive c).readable =
    wire ms ++ (drain frame msgs (cs ++ [c]).flatten).rest
  taken : (drain frame msgs (cs ++ [c]).flatten).taken = (drain frame msgs cs.flatten).taken ++ ms
  pending : (ideal msgs b (cs ++ [c])).1 = (drain frame msgs (cs ++ [c]).flatten).pending
  buffer : (ideal msgs b (cs ++ [c])).2 = dropFrames ((ideal msgs b cs).2.receive c) ms
  settled : (ideal msgs b (cs ++ [c])).2.Settled

/-- **One more chunk** of a stream that arrives. -/
theorem Arrives.completes (h : Arrives b msgs chunks) {cs cs' : List ByteString} {c : ByteString}
    (hcs : chunks = cs ++ c :: cs') (hholds : Holds msgs b cs) :
    ∃ ms, Completes msgs b cs c ms := by
  obtain ⟨hpending, hread, hwf⟩ := hholds
  have hroom := h.room cs c cs' hcs
  have hflatten : (cs ++ [c]).flatten = cs.flatten ++ c := by simp
  have hstream : cs.flatten ++ c <+: wire msgs := by
    rw [← h.stream, hcs]
    exact ⟨cs'.flatten, by simp⟩
  obtain ⟨hwf', hread', hlen', hwrite'⟩ := TcpBuffer.receive_of_lt hwf hroom
  -- What the whole stream so far yields is what was drained before, and what the bytes kept and the
  -- chunk yield now.
  have happend := drain_append frame msgs cs.flatten c
  have hsnoc := ideal_snoc msgs b cs c
  rw [keepUp, hread, hpending] at hsnoc
  set d := drain frame (drain frame msgs cs.flatten).pending
    ((drain frame msgs cs.flatten).rest ++ c) with hd
  have hbytes : (drain frame msgs cs.flatten).rest ++ c = wire d.taken ++ d.rest :=
    (drain_bytes (drain_rest_append hstream)).1
  refine ⟨d.taken, fun m hm => h.encodable m ?_, hwf', by omega, ?_, ?_, ?_, ?_, ?_⟩
  · -- A message that is taken was still to come before.
    rw [← drain_items frame msgs cs.flatten]
    refine List.mem_append_right _ ?_
    rw [← drain_items frame (drain frame msgs cs.flatten).pending
      ((drain frame msgs cs.flatten).rest ++ c)]
    exact List.mem_append_left _ hm
  · rw [hread', hread, hbytes, hflatten, happend]
  · rw [hflatten, happend]
  · rw [hflatten, happend, hsnoc]
  · rw [hsnoc]
  · rw [hsnoc]
    exact settled_dropFrames (TcpBuffer.settled_receive hroom) _

section Chunk

variable {cs : List ByteString} {chunk : ByteString} {ms : List TinyPBProtocol}

/-- The decoder can come to the buffer of the ideal receiver. -/
theorem Completes.takes (h : Completes msgs b cs chunk ms) :
    ∃ ts, Takes ((ideal msgs b cs).2.receive chunk) ts (ideal msgs b (cs ++ [chunk])).2 ∧
      messages ts = ms.map received := by
  rw [h.buffer]
  exact (exists_takes_wire h.encodable h.wellFormed h.room h.readable).1

theorem Completes.holds (h : Completes msgs b cs chunk ms) : Holds msgs b (cs ++ [chunk]) := by
  obtain ⟨-, hwf, hread, -⟩ := exists_takes_wire h.encodable h.wellFormed h.room h.readable
  rw [← h.buffer] at hwf hread
  exact ⟨h.pending, hread, hwf⟩

end Chunk

theorem Arrives.holds (h : Arrives b msgs chunks) {cs cs' : List ByteString}
    (hcs : chunks = cs ++ cs') : Holds msgs b cs := by
  induction cs using List.reverseRecOn generalizing cs' with
  | nil => exact h.holds_nil
  | append_singleton cs c ih =>
    rw [List.append_assoc] at hcs
    obtain ⟨ms, hms⟩ := h.completes hcs (ih hcs)
    exact hms.holds

/-! ## From quiet buffers to the ideal receiver -/

theorem Quiet.iteration_none (hwf : b.WellFormed) (h : Quiet b) :
    (iteration b).result = .ok none := by
  have hsize := hwf.write_le_size
  exact (iteration_none_iff hwf).mpr ⟨h.1.mono le_rfl (by omega), h.2⟩

/-- The numbers an iteration reads on bounded accesses lie below the bound. -/
theorem readsBelow_of_within {x : Exec (Option Taken)} {w : ℕ}
    (h : x.All (Access.Within 0 w 0)) : x.All (Access.ReadsBelow w) := by
  refine h.mono fun a ha => ?_
  cases a with
  | load index size =>
    rintro rfl
    have := ha.2
    omega
  | _ => trivial

/-- A receiver that is where the ideal one is reads numbers below the write index only, while it
takes the messages a chunk completes. -/
theorem readsBelow_of_takes {r : ByteString} (hmsgs : ∀ m ∈ msgs, m.Encodable) (hwf : b.WellFormed)
    (hroom : b.writeIndex < b.buffer.length) (hread : b.readable = wire msgs ++ r)
    (hquiet : Quiet (dropFrames b msgs)) {ts : List Taken} (hts : Takes b ts c) :
    (iteration c).All (Access.ReadsBelow c.writeIndex) := by
  induction msgs generalizing b ts with
  | nil =>
    have hnone := hquiet.iteration_none hwf
    cases hts with
    | nil =>
      have hsize := hwf.write_le_size
      exact readsBelow_of_within (iteration_all_of_selects hwf le_rfl (by omega) hquiet.1
        fun k hk => absurd hk.2.1 (hquiet.2 k hk.1))
    -- All messages are taken, and a quiet buffer has no other frame.
    | cons ht _ => cases ht.symm.trans hnone
  | cons m msgs ih =>
    rw [wire_cons, List.append_assoc] at hread
    obtain ⟨t, ht, -, hrest, hwf', hread', hroom'⟩ :=
      iteration_of_frame hwf hroom (hmsgs m (by simp)) hread
    cases hts with
    | nil => exact readsBelow_of_within (iteration_all_of_frame hwf (hmsgs m (by simp)) hread)
    | cons hu hus =>
      obtain rfl := Option.some.inj (Except.ok.inj (hu.symm.trans ht))
      exact ih (fun m' hm' => hmsgs m' (by simp [hm'])) hwf' hroom' hread' (hrest ▸ hquiet) hus

/-- A receiver whose buffers are quiet is the ideal one. -/
theorem Arrives.feeds (h : Arrives b msgs chunks) {cs cs' : List ByteString}
    (hcs : chunks = cs ++ cs')
    (hquiet : ∀ ds d ds', cs = ds ++ d :: ds' → Quiet (ideal msgs b (ds ++ [d])).2) :
    Feeds b cs ((drain frame msgs cs.flatten).taken.map received) (ideal msgs b cs).2 := by
  induction cs using List.reverseRecOn generalizing cs' with
  | nil =>
    rw [List.flatten_nil, drain_frame_nil]
    exact .nil b
  | append_singleton cs c ih =>
    rw [List.append_assoc] at hcs
    obtain ⟨ms, hms⟩ := h.completes hcs (h.holds hcs)
    obtain ⟨ts, hts, hmessages⟩ := hms.takes
    have hnone := (hquiet cs c [] rfl).iteration_none hms.holds.wellFormed
    rw [hms.taken, List.map_append, ← hmessages]
    -- `decode` takes the messages the chunk completes, and returns because what is left is quiet.
    refine .snoc (ih hcs fun ds d ds' hds => hquiet ds d (ds' ++ [c]) (by simp [hds])) ?_
    exact decodes_iff.mpr ⟨ts, hts, hnone, rfl⟩

theorem Feeds.snoc_iff {cs : List ByteString} {d : ByteString} {ms : List TinyPBProtocol} :
    Feeds b (cs ++ [d]) ms c ↔ ∃ ms₁ b₁ ms₂, Feeds b cs ms₁ b₁ ∧ Decodes (b₁.receive d) ms₂ c ∧
      ms = ms₁ ++ ms₂ := by
  constructor
  · generalize hds : cs ++ [d] = ds
    intro h
    cases h with
    | nil => simp at hds
    | snoc h hdecodes =>
      obtain ⟨rfl, hd⟩ := List.append_inj' hds rfl
      obtain rfl := List.singleton_injective hd
      exact ⟨_, _, _, h, hdecodes, rfl⟩
  · rintro ⟨ms₁, b₁, ms₂, h, hdecodes, rfl⟩
    exact .snoc h hdecodes

theorem Feeds.unique {cs : List ByteString} {ms ms' : List TinyPBProtocol} (h : Feeds b cs ms c)
    (h' : Feeds b cs ms' b') : ms = ms' ∧ c = b' := by
  induction h generalizing ms' b' with
  | nil =>
    -- A run on no chunks has not called `decode`.
    generalize hds : ([] : List ByteString) = ds at h'
    cases h' with
    | nil => exact ⟨rfl, rfl⟩
    | snoc _ _ => simp at hds
  | snoc _ hdecodes ih =>
    obtain ⟨ms₁, b₁, ms₂, h₁, hdecodes', rfl⟩ := Feeds.snoc_iff.mp h'
    obtain ⟨rfl, rfl⟩ := ih h₁
    obtain ⟨rfl, rfl⟩ := hdecodes.unique hdecodes'
    exact ⟨rfl, rfl⟩

/-! ## From the ideal receiver to quiet buffers -/

/-- What a scan accesses: single bytes below the write index, and numbers. -/
theorem scan_all_shape {tmp : ByteString} {w n i : ℕ} (hn : i + n = w) :
    (scan tmp w n i).All fun a =>
      ∃ index : ℤ, a = .load index 1 ∧ index < w ∨ a = .load index 4 := by
  induction n generalizing i with
  | zero => exact Traced.all_pure _
  | succ n ih =>
    -- Every branch of a step that finds no frame ends in the rest of the scan.
    have hrest := ih (i := i + 1) (by omega)
    rw [scan, Traced.all_bind, load_all]
    refine ⟨⟨i, .inl ⟨rfl, by omega⟩⟩, fun c _ => ?_⟩
    rw [Traced.all_ite]
    refine ⟨fun _ => ?_, fun _ => hrest⟩
    rw [Traced.all_bind, getInt32_all]
    refine ⟨⟨_, .inr rfl⟩, fun pkLen _ => ?_⟩
    rw [Traced.all_ite]
    refine ⟨fun _ => hrest, fun hj => ?_⟩
    rw [Traced.all_bind, load_all]
    refine ⟨⟨wrap32 (i + pkLen.toInt - 1), .inl ⟨rfl, by omega⟩⟩, fun c _ => ?_⟩
    rw [Traced.all_ite]
    exact ⟨fun _ => Traced.all_pure _, fun _ => hrest⟩

/-- A buffer that a decoder leaves, reading numbers below the write index only, is quiet. -/
theorem quiet_of_iteration_none (hwf : b.WellFormed) (hnone : (iteration b).result = .ok none)
    (hreads : (iteration b).All (Access.ReadsBelow b.writeIndex)) : Quiet b := by
  obtain ⟨hfits, hcloses⟩ := (iteration_none_iff hwf).mp hnone
  have hw := hwf.write_le_size
  refine ⟨?_, hcloses⟩
  have hall : (scanBuffer b).All (Access.Within 0 b.buffer.length 0) :=
    (scan_all_iff le_rfl le_rfl (by omega) (by omega) hwf.write_eq.symm).mpr hfits
  suffices hbelow : (scanBuffer b).All (Access.Within 0 b.writeIndex 0) from
    (scan_all_iff (by omega) le_rfl le_rfl (by omega) hwf.write_eq.symm).mp hbelow
  intro a ha
  have hbelow := (iteration_all_iff.mp hreads).1 a ha
  have hwithin := hall a ha
  rcases scan_all_shape hwf.write_eq.symm a ha with ⟨index, ⟨rfl, hlt⟩ | rfl⟩
  · rw [within_load_iff (by decide)] at hwithin ⊢
    omega
  · have := hbelow rfl
    rw [within_load_iff (by decide)] at hwithin ⊢
    omega

/-- Iterations leave the vector as it is, or end in one with fewer bytes than were readable. -/
theorem Takes.buffer_eq_or_lt {ts : List Taken} (h : Takes b ts c) (hwf : b.WellFormed)
    (hthird : b.readIndex < b.buffer.length / 3) (hne : b.readIndex < b.writeIndex) :
    c.buffer = b.buffer ∧ c.writeIndex = b.writeIndex ∨ c.writeIndex < b.readAble := by
  have hw := hwf.write_eq
  induction ts using List.reverseRecOn generalizing c with
  | nil =>
    cases h
    exact .inl ⟨rfl, rfl⟩
  | append_singleton ts t ih =>
    obtain ⟨c₁, h₁, ht, rfl⟩ := Takes.snoc_iff.mp h
    obtain ⟨hfits, k, hk, -, rfl⟩ := (iteration_some_iff (h₁.wellFormed hwf).1).mp ht
    -- Only a compaction changes the vector, and it drops a third of it or more.
    rcases TcpBuffer.moveReadIndex_cases c₁ (lengthAt c₁ k) with ⟨hbuffer, hwrite⟩ |
      ⟨j, hj, -, hwrite⟩
    · rw [takenAt, hbuffer, hwrite]
      exact ih h₁
    · rw [takenAt, hwrite]
      rcases ih h₁ with ⟨hbuffer, hwrite₁⟩ | hless
      · rw [hbuffer] at hj
        omega
      · omega

/-- **Without progress there was no frame**: iterations that leave as many bytes readable as there
were before have taken nothing. -/
theorem Takes.eq_of_readAble {ts : List Taken} (h : Takes b ts c) (hwf : b.WellFormed)
    (hsettled : b.Settled) (heq : c.readAble = b.readAble) : c = b := by
  cases h with
  | nil => rfl
  | @cons _ _ t ts ht hts =>
    obtain ⟨hfits, k, hk, -, rfl⟩ := (iteration_some_iff hwf).mp ht
    obtain ⟨hle, hlt, h5, -, -, -⟩ := hk.bounds hwf hfits
    have hthird : b.readIndex < b.buffer.length / 3 := by
      rcases hsettled with h | h <;> omega
    have hall : Takes b (takenAt b k :: ts) c := .cons ht hts
    -- A compaction on the way loses more bytes than could be won back.
    rcases hall.buffer_eq_or_lt hwf hthird (by omega) with ⟨hbuffer, hwrite⟩ | hless
    · have hwf' := (hall.wellFormed hwf).1
      have hw := hwf.write_eq
      have hw' := hwf'.write_eq
      exact TcpBuffer.ext hbuffer (by omega) hwrite
    · unfold TcpBuffer.readAble at *
      omega

/-- A receiver that does what the ideal one does comes to the buffers of the ideal one, and these
are quiet. -/
theorem Arrives.quiet (h : Arrives b msgs chunks) (halike : SegmentsAlike b msgs chunks)
    {cs cs' : List ByteString} {d : ByteString} (hcs : chunks = cs ++ d :: cs')
    (hfeeds : Feeds b cs ((drain frame msgs cs.flatten).taken.map received) (ideal msgs b cs).2) :
    Quiet (ideal msgs b (cs ++ [d])).2 := by
  obtain ⟨ms, hms⟩ := h.completes hcs (h.holds hcs)
  obtain ⟨ts, hts, -⟩ := hms.takes
  have hholds := hms.holds
  -- What `decode` returned.
  obtain ⟨b', hb', hread⟩ := halike.delivers (cs ++ [d]) cs' (by simp [hcs])
  obtain ⟨ms₁, b₁, ms₂, h₁, hdecodes, -⟩ := Feeds.snoc_iff.mp hb'
  obtain ⟨-, rfl⟩ := hfeeds.unique h₁
  obtain ⟨us, hus, hnone, -⟩ := decodes_iff.mp hdecodes
  -- Its run goes through the buffer of the ideal receiver, and on from there.
  obtain ⟨vs, -, hvs⟩ := hts.extend hus hnone
  have hwf' := (hvs.wellFormed hholds.wellFormed).1
  -- Both hold the bytes of the incomplete message, so it has taken nothing more.
  obtain rfl : b' = (ideal msgs b (cs ++ [d])).2 := by
    refine hvs.eq_of_readAble hholds.wellFormed hms.settled ?_
    rw [← hwf'.length_readable, ← hholds.wellFormed.length_readable, hread, hholds.readable]
  exact quiet_of_iteration_none hwf' hnone (halike.reads cs d cs' _ _ hcs hfeeds ts _ hts)

/-- **Decoding does not depend on the cuts** exactly if the bytes of every incomplete message are
quiet. -/
theorem segmentsAlike_iff (h : Arrives b msgs chunks) :
    SegmentsAlike b msgs chunks ↔
      ∀ cs c cs', chunks = cs ++ c :: cs' → Quiet (ideal msgs b (cs ++ [c])).2 := by
  constructor
  · intro halike
    -- By induction on the part of the stream that has arrived.
    have hquiet : ∀ cs cs', chunks = cs ++ cs' →
        ∀ ds d ds', cs = ds ++ d :: ds' → Quiet (ideal msgs b (ds ++ [d])).2 := by
      intro cs
      induction cs using List.reverseRecOn with
      | nil => simp
      | append_singleton cs c ih =>
        intro cs' hcs ds d ds' hds
        rw [List.append_assoc] at hcs
        have hbefore := ih _ hcs
        -- The cut is behind the last chunk, or one of those before.
        rcases List.eq_nil_or_concat ds' with rfl | ⟨ds', e, rfl⟩
        · obtain ⟨rfl, hd⟩ := List.append_inj' hds rfl
          obtain rfl := List.singleton_injective hd
          exact h.quiet halike hcs (h.feeds hcs hbefore)
        · have hinit : cs ++ [c] = (ds ++ d :: ds') ++ [e] := by
            rw [hds]
            simp
          exact hbefore ds d ds' (List.append_inj' hinit rfl).1
    exact fun cs c cs' hcs => hquiet chunks [] (by simp) cs c cs' hcs
  · intro hquiet
    have hfeeds : ∀ cs cs', chunks = cs ++ cs' →
        Feeds b cs ((drain frame msgs cs.flatten).taken.map received) (ideal msgs b cs).2 :=
      fun cs cs' hcs => h.feeds hcs fun ds d ds' hds =>
        hquiet ds d (ds' ++ cs') (by simp [hcs, hds])
    refine ⟨fun cs cs' hcs => ⟨_, hfeeds cs cs' hcs, (h.holds hcs).readable⟩, ?_, ?_⟩
    · have hall := hfeeds chunks [] (by simp)
      rw [h.stream, show wire msgs = (msgs.map frame).flatten from rfl, drain_flatten] at hall
      exact ⟨_, hall⟩
    · intro cs c cs' ms b₁ hcs hb₁ ts b₂ hts
      -- The receiver is where the ideal one is when the chunk arrives.
      obtain ⟨-, rfl⟩ := (hfeeds cs _ hcs).unique hb₁
      obtain ⟨done, hdone⟩ := h.completes hcs (h.holds hcs)
      exact readsBelow_of_takes hdone.encodable hdone.wellFormed hdone.room hdone.readable
        (hdone.buffer ▸ hquiet cs c cs' hcs) hts

/-- A message that arrives in two chunks, the second behind the first `n` bytes. -/
def twoChunks (m : TinyPBProtocol) (n : ℕ) : List ByteString := [m.frame.take n, m.frame.drop n]

theorem arrives_twoChunks {m : TinyPBProtocol} {n : ℕ} (hm : m.Encodable) (hwf : b.WellFormed)
    (hempty : b.readable = []) (hfirst : (m.frame.take n).length < b.writeAble)
    (hsecond : (m.frame.drop n).length < (ideal [m] b [m.frame.take n]).2.writeAble) :
    Arrives b [m] (twoChunks m n) := by
  refine ⟨hwf, hempty, by simpa using hm, by simp [twoChunks], ?_⟩
  intro cs c cs' hcs
  -- There are two chunks: before the first nothing has arrived, before the second the first has.
  rcases cs with _ | ⟨c₁, _ | ⟨c₂, cs⟩⟩
  · obtain ⟨rfl, -⟩ := List.cons_eq_cons.mp hcs
    exact hfirst
  · obtain ⟨rfl, hrest⟩ := List.cons_eq_cons.mp hcs
    obtain ⟨rfl, -⟩ := List.cons_eq_cons.mp hrest
    exact hsecond
  · simp [twoChunks] at hcs

/-- A message with the id `"a"`, and one that holds its frame in the payload. -/
def innerMessage : TinyPBProtocol := { msgId := [0x61] }

def outerMessage : TinyPBProtocol := { msgId := [0x62], pbData := innerMessage.frame }

theorem segmentsAlike_iff_inner :
    SegmentsAlike (.new 100) [innerMessage] (twoChunks innerMessage 10) := by
  refine (segmentsAlike_iff (arrives_twoChunks (by decide) (by decide) (by decide) (by decide)
    (by decide))).mpr ?_
  intro cs c cs' hcs
  -- There are two chunks: the first bytes of the message, and the others.
  rcases cs with _ | ⟨c₁, _ | ⟨c₂, cs⟩⟩
  · obtain ⟨rfl, -⟩ := List.cons_eq_cons.mp hcs
    decide
  · obtain ⟨rfl, hrest⟩ := List.cons_eq_cons.mp hcs
    obtain ⟨rfl, -⟩ := List.cons_eq_cons.mp hrest
    decide
  · simp [twoChunks] at hcs

/-- **A message in the payload of an incomplete one is delivered**, when only the end marker of the
outer message is missing. -/
theorem not_segmentsAlike_outer :
    Arrives (.new 100) [outerMessage] (twoChunks outerMessage 53) ∧
      ¬ SegmentsAlike (.new 100) [outerMessage] (twoChunks outerMessage 53) := by
  refine ⟨arrives_twoChunks (by decide) (by decide) (by decide) (by decide) (by decide),
    fun h => ?_⟩
  obtain ⟨b', hfeeds, -⟩ := h.delivers ([] ++ [outerMessage.frame.take 53]) _ rfl
  obtain ⟨ms₁, b₁, ms₂, h₁, hdecodes, hms⟩ := Feeds.snoc_iff.mp hfeeds
  obtain ⟨rfl, rfl⟩ := h₁.unique (.nil _)
  -- Nothing is complete, but `decode` delivers the inner message.
  have hnone : (drain frame [outerMessage] ([] ++ [outerMessage.frame.take 53]).flatten).taken.map
      received = [] := by decide
  have hinner : (decode 2 [] ((TcpBuffer.new 100).receive (outerMessage.frame.take 53))).map
      (Except.map Prod.fst) = some (.ok [innerMessage.received]) := by decide +kernel
  obtain ⟨r, hr, hmap⟩ := Option.map_eq_some_iff.mp hinner
  obtain rfl := Ends.unique (hdecodes []) ⟨2, hr⟩
  have hdelivered : ms₂ = [innerMessage.received] := Except.ok.inj hmap
  rw [hnone, hdelivered] at hms
  cases hms

end TalonRPC.TinyPBCoder
