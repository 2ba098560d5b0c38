import TalonRPC.TinyPB.Segmentation
import TalonRPC.TinyPB.Unique

/-!
# Decoding a part of a stream

A buffer holds a part of a stream of encoded messages: some that are complete, and the beginning of
the next one. `decode` delivers the complete messages and leaves the beginning, if that is quiet.

## Main definitions

* `Sendable m`: the encoder turns the message into a frame, and the decoder takes that
* `CutsQuietly b`: where the buffer ends inside a message, the bytes of that message are quiet

## Main results

* `decodes_drain`: `decode` does to the buffer what the ideal receiver does to its bytes
* `cutsQuietly_of_wire`: a buffer that ends with a message cuts none
-/

namespace TalonRPC.TinyPBCoder

open Bytes Machine TinyPBProtocol

/-- The texts of the message fit the arrays of the decoder, and its frame has a length that is an
int. -/
structure Sendable (m : TinyPBProtocol) : Prop where
  encodable : m.Encodable
  short : m.named.frameLength < 2 ^ 31

instance (m : TinyPBProtocol) : Decidable (Sendable m) :=
  decidable_of_iff (m.Encodable ∧ m.named.frameLength < 2 ^ 31)
    ⟨fun ⟨h₁, h₂⟩ => ⟨h₁, h₂⟩, fun h => ⟨h.encodable, h.short⟩⟩

/-- Wherever the readable bytes are messages and the beginning of another one, that beginning is
quiet. -/
def CutsQuietly (b : TcpBuffer) : Prop :=
  ∀ (msgs : List TinyPBProtocol) (m : TinyPBProtocol) (r : ByteString),
    (∀ m' ∈ m :: msgs, Sendable m') → b.readable = wire msgs ++ r → r <+: m.frame →
      r ≠ m.frame → r ≠ [] → Quiet (dropFrames b msgs)

variable {b : TcpBuffer} {msgs : List TinyPBProtocol}

theorem frame_ne_nil (m : TinyPBProtocol) : m.frame ≠ [] := by
  intro hempty
  have hge := m.named.frameLength_ge
  rw [← length_frame, hempty, List.length_nil] at hge
  omega

/-- **`decode` on a part of a stream** delivers the complete messages, and leaves the bytes that
the ideal receiver keeps. -/
theorem decodes_drain (hwf : b.WellFormed) (hroom : b.writeIndex < b.buffer.length)
    (hmsgs : ∀ m ∈ msgs, Sendable m) (hstream : b.readable <+: wire msgs)
    (hcuts : CutsQuietly b) :
    ∃ b', Decodes b ((drain frame msgs b.readable).taken.map received) b' ∧ b'.WellFormed ∧
      b'.readable = (drain frame msgs b.readable).rest ∧ b'.writeIndex < b'.buffer.length := by
  obtain ⟨hbytes, hrest⟩ := drain_bytes hstream
  have hitems := drain_items frame msgs b.readable
  set d := drain frame msgs b.readable with hd
  have htaken : ∀ m ∈ d.taken, Sendable m :=
    fun m hm => hmsgs m (hitems ▸ List.mem_append_left _ hm)
  obtain ⟨⟨ts, hts, hmessages⟩, hwf', hread', hroom'⟩ :=
    exists_takes_wire (fun m hm => (htaken m hm).encodable) hwf hroom hbytes
  refine ⟨dropFrames b d.taken, decodes_iff.mpr ⟨ts, hts, ?_, hmessages.symm⟩, hwf', hread', hroom'⟩
  by_cases hempty : d.rest = []
  · exact iteration_of_empty hwf' (hread'.trans hempty)
  -- The bytes that are left are a proper part of the next frame.
  cases hpending : d.pending with
  | nil =>
    rw [hpending] at hrest
    exact absurd (List.prefix_nil.mp hrest) hempty
  | cons m pending =>
    have hlt := length_drain_rest_lt hpending
    rw [hpending, List.map_cons, List.flatten_cons] at hrest
    have hpart : d.rest <+: m.frame :=
      List.prefix_of_prefix_length_le hrest (List.prefix_append _ _) hlt.le
    have hm : m ∈ msgs := by
      rw [← hitems, hpending]
      simp
    refine (hcuts d.taken m d.rest ?_ hbytes hpart (fun heq => ?_) hempty).iteration_none hwf'
    · exact List.forall_mem_cons.mpr ⟨hmsgs m hm, htaken⟩
    · rw [← hd, heq] at hlt
      exact lt_irrefl _ hlt

/-- **A buffer that ends with a message cuts none**: its bytes are not those of other messages and
the beginning of a further one. -/
theorem cutsQuietly_of_wire (hmsgs : ∀ m ∈ msgs, Sendable m) (hread : b.readable = wire msgs) :
    CutsQuietly b := by
  intro ns m r hns hread' hpart hne hsome
  exfalso
  rw [hread] at hread'
  clear hread
  obtain ⟨hm, hns'⟩ := List.forall_mem_cons.mp hns
  clear hns
  -- Message by message, from the start of the buffer.
  induction ns generalizing msgs with
  | nil =>
    cases msgs with
    | nil => exact hsome hread'.symm
    | cons n msgs =>
      -- The next message would be a part of `m`.
      obtain ⟨s, hs⟩ := hpart
      have hframe : m.frame ++ [] = n.frame ++ (wire msgs ++ s) := by
        rw [List.append_nil, ← hs, show r = n.frame ++ wire msgs from hread'.symm,
          List.append_assoc]
      have hrest := (sameOnWire_of_frame hm.short (hmsgs n (by simp)).short hframe).2
      obtain ⟨-, rfl⟩ := List.append_eq_nil_iff.mp hrest.symm
      exact hne (by rw [← hs, List.append_nil])
  | cons n' ns ih =>
    rw [wire_cons, List.append_assoc] at hread'
    obtain ⟨hn', hrests⟩ := List.forall_mem_cons.mp hns'
    cases msgs with
    | nil => exact frame_ne_nil n' (List.append_eq_nil_iff.mp hread'.symm).1
    | cons n msgs =>
      have hrest := (sameOnWire_of_frame (hmsgs n (by simp)).short hn'.short hread').2
      exact ih (fun m' hm' => hmsgs m' (List.mem_cons_of_mem _ hm')) hrest hrests

end TalonRPC.TinyPBCoder
