import TalonRPC.TinyPB.Iteration
import TalonRPC.TinyPB.Layout

/-!
# Decoding what was encoded

Where the read index points at an encoded message, the scan stops there at once, whatever bytes
the payload holds: the length behind the start marker leads to the end marker of the message. The
parser then finds every field where the encoder put it.

## Main results

* `iteration_of_frame`: an iteration at an encoded message takes exactly that message
* `encode_then_decode`: decoding gives back every encoded list of messages
-/

namespace TalonRPC

open Bytes Machine

namespace TinyPBCoder

open TinyPBProtocol

variable {b : TcpBuffer} {m : TinyPBProtocol} {r : ByteString} {room : ℕ}

/-- What is known about a buffer whose readable bytes start with an encoded message. -/
theorem selects_of_frame (hwf : b.WellFormed) (hm : m.Encodable)
    (hread : b.readable = m.frame ++ r) :
    Selects b b.readIndex ∧
      Scannable b.buffer b.writeIndex b.readIndex b.writeIndex b.readIndex ∧
      FrameFits b.buffer b.writeIndex 0 (frameAt b.buffer b.readIndex) ∧
      lengthAt b b.readIndex = m.frame.length ∧ m.frame.length ≤ b.readAble ∧
      parsed b.buffer (frameAt b.buffer b.readIndex) = some m.received := by
  have hw := hwf.write_eq
  have hsize := hwf.write_le_size
  have hsize_lt := hwf.size_lt
  have hge := m.named.frameLength_ge
  have hlength := length_frame m
  have hle : m.frame.length ≤ b.readAble := by
    rw [← hwf.length_readable, hread, List.length_append]
    omega
  have hlen : m.named.frameLength < 2 ^ 31 := by omega
  -- The readable bytes lie in the vector, so its fields are where the encoder put them.
  have h : Layout b.buffer b.readIndex m.named :=
    (holdsAt_fields_iff (by omega)).mp (TcpBuffer.holdsAt_of_readable hwf hread)
  obtain ⟨hend, hcloses⟩ := h.closes (w := b.writeIndex) hlen (by omega) (by omega)
  refine ⟨⟨le_rfl, hcloses, fun k' h₁ h₂ => absurd h₂ (by omega)⟩, ?_,
    h.frameFits hm.named hlen (by decide) (by omega), ?_, hle, h.parsed_eq hm hlen hend⟩
  · -- The scan stops at the first byte: no other start marker is met before.
    intro k' h₁ hbefore _
    have hk' : ¬ b.readIndex < k' := fun hlt => hbefore b.readIndex le_rfl hlt hcloses
    obtain rfl : k' = b.readIndex := by omega
    exact ⟨by omega, fun _ => by omega⟩
  · rw [lengthAt, h.pkLen, toInt_ofNat hlen, hlength]

/-- **An iteration at an encoded message** takes exactly that message. -/
theorem iteration_of_frame (hwf : b.WellFormed) (hroom : b.writeIndex < b.buffer.length)
    (hm : m.Encodable) (hread : b.readable = m.frame ++ r) :
    ∃ t, (iteration b).result = .ok (some t) ∧ t.delivered = some m.received ∧
      t.rest = b.moveReadIndex m.frame.length ∧ t.rest.WellFormed ∧ t.rest.readable = r ∧
      t.rest.writeIndex < t.rest.buffer.length := by
  have hw := hwf.write_eq
  obtain ⟨hselects, hscan, hfits, hlength, hle, hparsed⟩ := selects_of_frame hwf hm hread
  obtain ⟨hwf', hread', -, hlen', hwrite'⟩ := TcpBuffer.moveReadIndex_of_le hwf hle (by omega)
  refine ⟨takenAt b b.readIndex, (iteration_some_iff hwf).mpr ⟨?_, _, hselects, ?_, rfl⟩, hparsed,
    ?_⟩
  · exact hscan.mono (by omega) (by omega)
  · exact hfits.mono (by omega)
  rw [takenAt, hlength]
  refine ⟨rfl, hwf', ?_, by simp only; omega⟩
  rw [hread', hread, List.drop_left]

/-- Its accesses lie below the write index. -/
theorem iteration_all_of_frame (hwf : b.WellFormed) (hm : m.Encodable)
    (hread : b.readable = m.frame ++ r) : (iteration b).All (Access.Within 0 b.writeIndex 0) := by
  obtain ⟨hselects, hscan, hfits, -⟩ := selects_of_frame hwf hm hread
  have hsize := hwf.write_le_size
  exact iteration_all_of_selects hwf le_rfl (by omega) (hscan.mono (by omega) le_rfl)
    fun k hk => hselects.unique hk ▸ hfits

/-- The buffer without the frames of `ms`. -/
def dropFrames (b : TcpBuffer) (ms : List TinyPBProtocol) : TcpBuffer :=
  ms.foldl (fun b m => b.moveReadIndex m.frame.length) b

@[simp] theorem dropFrames_nil (b : TcpBuffer) : dropFrames b [] = b := rfl

@[simp] theorem dropFrames_cons (b : TcpBuffer) (m : TinyPBProtocol) (ms : List TinyPBProtocol) :
    dropFrames b (m :: ms) = dropFrames (b.moveReadIndex m.frame.length) ms := rfl

/-- The decoder takes encoded messages off the buffer one by one. -/
theorem exists_takes_wire {msgs : List TinyPBProtocol} (hmsgs : ∀ m ∈ msgs, m.Encodable)
    (hwf : b.WellFormed) (hroom : b.writeIndex < b.buffer.length)
    (hread : b.readable = wire msgs ++ r) :
    (∃ ts, Takes b ts (dropFrames b msgs) ∧ messages ts = msgs.map received) ∧
      (dropFrames b msgs).WellFormed ∧ (dropFrames b msgs).readable = r ∧
      (dropFrames b msgs).writeIndex < (dropFrames b msgs).buffer.length := by
  induction msgs generalizing b with
  | nil => exact ⟨⟨[], .nil b, rfl⟩, hwf, hread, hroom⟩
  | cons m msgs ih =>
    rw [wire_cons, List.append_assoc] at hread
    obtain ⟨t, ht, hdelivered, hrest, hwf₁, hread₁, hroom₁⟩ :=
      iteration_of_frame hwf hroom (hmsgs m (by simp)) hread
    -- The next frame is where the readable bytes start again.
    obtain ⟨⟨ts, hts, hmessages⟩, hb'⟩ :=
      ih (fun m' hm' => hmsgs m' (by simp [hm'])) hwf₁ hroom₁ hread₁
    rw [hrest] at hts hb'
    exact ⟨⟨t :: ts, .cons ht (hrest ▸ hts), by simp [hdelivered, hmessages]⟩, hb'⟩

/-- Without a readable byte, the decoder returns. -/
theorem iteration_of_empty (hwf : b.WellFormed) (hread : b.readable = []) :
    (iteration b).result = .ok none := by
  have hzero : b.readAble = 0 := by rw [← hwf.length_readable, hread, List.length_nil]
  have hw := hwf.write_eq
  refine (iteration_none_iff hwf).mpr ⟨?_, ?_⟩
  · intro k hk _ hs
    have := hs.2
    omega
  · intro k hk hc
    have := hc.1.2
    omega

/-- The decoder returns from a buffer that holds encoded messages, with these messages. -/
theorem decodes_wire {msgs : List TinyPBProtocol} (hmsgs : ∀ m ∈ msgs, m.Encodable)
    (hwf : b.WellFormed) (hroom : b.writeIndex < b.buffer.length) (hread : b.readable = wire msgs) :
    ∃ b', Decodes b (msgs.map received) b' ∧ b'.readable = [] := by
  rw [← List.append_nil (wire msgs)] at hread
  obtain ⟨⟨ts, hts, hmessages⟩, hwf', hempty, -⟩ := exists_takes_wire hmsgs hwf hroom hread
  exact ⟨_, decodes_iff.mpr ⟨ts, hts, iteration_of_empty hwf' hempty, hmessages.symm⟩, hempty⟩

/-- **Decoding gives back what was encoded.** -/
theorem encode_then_decode (msgs : List TinyPBProtocol) (hmsgs : ∀ m ∈ msgs, m.Encodable)
    (hlen : (wire msgs).length < 2 ^ 30) :
    (∀ size < 2 ^ 31, ∃ r, encode msgs (TcpBuffer.new size) = .ok r) ∧
    ∀ msgs' out out' b, out.WellFormed → encode msgs out = .ok (msgs', out') →
      b.WellFormed → b.writeIndex < b.buffer.length →
      out'.readable = out.readable ++ b.readable →
      ∃ b', Decodes b (msgs.map received) b' ∧ b'.readable = [] := by
  constructor
  · intro size hsize
    have hzero : (TcpBuffer.new size).writeIndex = 0 := rfl
    exact exists_encode (TcpBuffer.wellFormed_new hsize) (by omega)
  · intro msgs' out out' b hout henc hwf hroom hread
    obtain ⟨-, -, hwire, -⟩ := encode_eq hout henc
    -- The bytes are those of the encoder, whatever was in its buffer before.
    exact decodes_wire hmsgs hwf hroom (List.append_cancel_left (hread.symm.trans hwire))

/-- A request with marker bytes in its payload, and a reply without an id. -/
def sampleMessages : List TinyPBProtocol :=
  [{ msgId := [0x37], methodName := [0x41, 0x2e, 0x62], pbData := [0x02, 0x00, 0x03] },
    { errCode := -2, errInfo := [0x6e, 0x6f] }]

/-- The sample messages, read into a buffer in which other bytes precede and follow them. -/
def sampleBuffer : TcpBuffer := ⟨[0x02, 0x03] ++ wire sampleMessages ++ [0x02, 0x00], 2, 72⟩

theorem encode_then_decode_sample :
    ∃ b', Decodes sampleBuffer (sampleMessages.map received) b' ∧ b'.readable = [] :=
  (encode_then_decode sampleMessages (by decide) (by decide)).2 _ (TcpBuffer.new 8) _
    sampleBuffer (by decide) rfl (by decide) (by decide) (by decide)

end TinyPBCoder

end TalonRPC
