import Mathlib.Data.List.Basic
import Mathlib.Tactic.SplitIfs

/-!
# Framed streams

A sender writes items as frames, one behind the other, and a receiver gets their bytes in pieces.
What an ideal receiver does with the bytes it holds is to drain them: it takes the items whose
frames are complete, and keeps the bytes of the next frame until the rest of it arrives.

## Main definitions

* `Drained`: the items taken, the items that are still to come, and the bytes kept
* `drain frame items bytes`: the ideal receiver

## Main results

* `drain_items`, `drain_bytes`: nothing is lost and nothing is invented
* `drain_append`: where the stream is cut does not matter
* `drain_rest_append_eq`, `length_drain_rest_lt`: the bytes kept begin the next frame, and end
  where the bytes under way go on
* `drain_flatten`: a whole stream yields all its items
* `forall₂_of_flatten_eq`: a stream of frames that delimit themselves has one list of items only
-/

namespace Bytes

variable {α β : Type}

/-- What a receiver has made of a part of a stream. -/
structure Drained (α β : Type) where
  taken : List α
  pending : List α
  rest : List β

variable (frame : α → List β)

/-- The items whose frames are complete in `bytes`, a part of the stream of `items`. -/
def drain : List α → List β → Drained α β
  | [], bytes => ⟨[], [], bytes⟩
  | a :: items, bytes =>
    if (frame a).length ≤ bytes.length then
      let d := drain items (bytes.drop (frame a).length)
      ⟨a :: d.taken, d.pending, d.rest⟩
    else ⟨[], a :: items, bytes⟩

variable {frame} {a : α} {items : List α} {bytes more : List β}

theorem drain_cons_of_le (h : (frame a).length ≤ bytes.length) :
    drain frame (a :: items) bytes =
      ⟨a :: (drain frame items (bytes.drop (frame a).length)).taken,
        (drain frame items (bytes.drop (frame a).length)).pending,
        (drain frame items (bytes.drop (frame a).length)).rest⟩ := by
  rw [drain, if_pos h]

theorem drain_cons_of_lt (h : bytes.length < (frame a).length) :
    drain frame (a :: items) bytes = ⟨[], a :: items, bytes⟩ := by
  rw [drain, if_neg (by omega)]

/-- Before the first byte, nothing is complete. -/
theorem drain_nil (h : ∀ a ∈ items, frame a ≠ []) : drain frame items [] = ⟨[], items, []⟩ := by
  cases items with
  | nil => rfl
  | cons a items => exact drain_cons_of_lt (List.length_pos_iff.mpr (h a (List.mem_cons_self ..)))

/-- Every item is taken or still to come. -/
theorem drain_items (frame : α → List β) (items : List α) (bytes : List β) :
    (drain frame items bytes).taken ++ (drain frame items bytes).pending = items := by
  induction items generalizing bytes with
  | nil => rfl
  | cons a items ih =>
    rcases Nat.lt_or_ge bytes.length (frame a).length with h | h
    · rw [drain_cons_of_lt h]
      rfl
    · rw [drain_cons_of_le h, List.cons_append, ih]

/-- **The bytes of a part of the stream** are the frames that were taken, and the bytes kept; those
are a part of the stream of the items that are still to come. -/
theorem drain_bytes (h : bytes <+: (items.map frame).flatten) :
    bytes = ((drain frame items bytes).taken.map frame).flatten ++ (drain frame items bytes).rest ∧
      (drain frame items bytes).rest <+:
        ((drain frame items bytes).pending.map frame).flatten := by
  induction items generalizing bytes with
  | nil => exact ⟨rfl, h⟩
  | cons a items ih =>
    rcases Nat.lt_or_ge bytes.length (frame a).length with hlt | hle
    · rw [drain_cons_of_lt hlt]
      exact ⟨rfl, h⟩
    · rw [List.map_cons, List.flatten_cons] at h
      -- The first frame is complete: it is a prefix of the bytes.
      obtain ⟨bytes, rfl⟩ := List.prefix_of_prefix_length_le (List.prefix_append _ _) h hle
      obtain ⟨hbytes, hrest⟩ := ih ((List.prefix_append_right_inj _).mp h)
      rw [drain_cons_of_le hle, List.drop_left]
      refine ⟨?_, hrest⟩
      rw [List.map_cons, List.flatten_cons, List.append_assoc, ← hbytes]

/-- **Where the stream is cut does not matter**: what was drained before more bytes arrived, and
what is drained of the bytes kept and the new ones, is what the whole part yields. -/
theorem drain_append (frame : α → List β) (items : List α) (bytes more : List β) :
    drain frame items (bytes ++ more) =
      ⟨(drain frame items bytes).taken ++ (drain frame (drain frame items bytes).pending
          ((drain frame items bytes).rest ++ more)).taken,
        (drain frame (drain frame items bytes).pending
          ((drain frame items bytes).rest ++ more)).pending,
        (drain frame (drain frame items bytes).pending
          ((drain frame items bytes).rest ++ more)).rest⟩ := by
  induction items generalizing bytes with
  | nil => rfl
  | cons a items ih =>
    rcases Nat.lt_or_ge bytes.length (frame a).length with h | h
    · rw [drain_cons_of_lt h]
      rfl
    · rw [drain_cons_of_le h, drain_cons_of_le (by rw [List.length_append]; omega),
        List.drop_append_of_le_length h, ih]
      rfl

/-- The bytes kept and the next bytes of the stream are a part of the stream of the items that are
still to come. -/
theorem drain_rest_append (h : bytes ++ more <+: (items.map frame).flatten) :
    (drain frame items bytes).rest ++ more <+:
      ((drain frame items bytes).pending.map frame).flatten := by
  have hbytes := (drain_bytes ((List.prefix_append _ _).trans h)).1
  have hitems := drain_items frame items bytes
  rw [← hitems, List.map_append, List.flatten_append] at h
  -- The frames taken are a common prefix of both sides.
  nth_rewrite 1 [hbytes] at h
  rw [List.append_assoc] at h
  exact (List.prefix_append_right_inj _).mp h

/-- **What is kept and what is under way** are together the stream of the items still to come. -/
theorem drain_rest_append_eq (h : bytes ++ more = (items.map frame).flatten) :
    (drain frame items bytes).rest ++ more =
      ((drain frame items bytes).pending.map frame).flatten := by
  have hbytes := (drain_bytes ⟨more, h⟩).1
  have hitems := drain_items frame items bytes
  rw [← hitems, List.map_append, List.flatten_append] at h
  nth_rewrite 1 [hbytes] at h
  rw [List.append_assoc] at h
  exact List.append_cancel_left h

/-- What is kept is less than the frame of the next item. -/
theorem length_drain_rest_lt {rest : List α} (h : (drain frame items bytes).pending = a :: rest) :
    (drain frame items bytes).rest.length < (frame a).length := by
  induction items generalizing bytes with
  | nil => simp [drain] at h
  | cons b items ih =>
    rcases Nat.lt_or_ge bytes.length (frame b).length with hlt | hle
    · rw [drain_cons_of_lt hlt] at h ⊢
      obtain ⟨rfl, -⟩ := List.cons_eq_cons.mp h
      exact hlt
    · rw [drain_cons_of_le hle] at h ⊢
      exact ih h

/-- **A whole stream yields all its items.** -/
theorem drain_flatten (items : List α) :
    drain frame items (items.map frame).flatten = ⟨items, [], []⟩ := by
  induction items with
  | nil => rfl
  | cons a items ih =>
    -- The stream starts with the whole first frame.
    rw [List.map_cons, List.flatten_cons, drain_cons_of_le (by simp), List.drop_left, ih]

/-- **Frames that delimit themselves** can be told apart: where the frame of one item and the rest
is the frame of another and the rest, the items are related and the rests are the same. Then lists
with the same stream are related item by item. -/
theorem forall₂_of_flatten_eq {R : α → α → Prop} {as bs : List α} (hne : ∀ a, frame a ≠ [])
    (hR : ∀ a ∈ as, ∀ b ∈ bs, ∀ r s, frame a ++ r = frame b ++ s → R a b ∧ r = s)
    (h : (as.map frame).flatten = (bs.map frame).flatten) : List.Forall₂ R as bs := by
  induction as generalizing bs with
  | nil =>
    cases bs with
    | nil => exact .nil
    | cons b bs =>
      rw [List.map_cons, List.flatten_cons, eq_comm, List.map_nil, List.flatten_nil] at h
      exact absurd (List.append_eq_nil_iff.mp h).1 (hne b)
  | cons a as ih =>
    cases bs with
    | nil =>
      rw [List.map_cons, List.flatten_cons, List.map_nil, List.flatten_nil] at h
      exact absurd (List.append_eq_nil_iff.mp h).1 (hne a)
    | cons b bs =>
      rw [List.map_cons, List.map_cons, List.flatten_cons, List.flatten_cons] at h
      obtain ⟨hab, hrest⟩ := hR a (List.mem_cons_self ..) b (List.mem_cons_self ..) _ _ h
      refine .cons hab (ih (fun a' ha' b' hb' => ?_) hrest)
      exact hR a' (List.mem_cons_of_mem _ ha') b' (List.mem_cons_of_mem _ hb')

end Bytes
