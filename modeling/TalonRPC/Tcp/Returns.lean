import TalonRPC.Tcp.Read
import TalonRPC.Tcp.Write

/-!
# Whether the socket loops end

`onRead` and `onWrite` loop around a system call. A socket that is gone keeps returning the same
result, and the loops should be left then. But both look at `EAGAIN` only: after any other error
they call again, and `onWrite` does so after a result of zero too. The counts that come before do
not help, as neither the index of a full read nor that of a short write is moved.

## Main definitions

* `Persistent`: the result a socket keeps returning
* `ReadReturns`, `WriteReturns`: the functions return after finitely many results
* `toWrite c`: how many bytes `onWrite` asks the socket to take

## Main results

* `returns_iff`: the functions return exactly if a result leaves the loop
-/

namespace TalonRPC

namespace TcpConnection

open Machine TcpBuffer TinyPBCoder

variable {κ : Type}

/-- A result that a socket keeps returning: zero, `EAGAIN`, or another error. -/
inductive Persistent
  | zero
  | again
  | error
  deriving DecidableEq, Repr

/-- The result, of `read`. -/
def Persistent.ofRead : Persistent → ReadResult
  | .zero => .closed
  | .again => .again
  | .error => .error

/-- The result, of `write`. -/
def Persistent.ofWrite : Persistent → WriteResult
  | .zero => .count 0
  | .again => .again
  | .error => .error

/-- `onRead` returns, or comes to `excute`, after finitely many of the results. -/
def ReadReturns (c : TcpConnection κ) (reads : List ByteString) (last : Persistent) : Prop :=
  ∃ n x, c.onRead (firstAnswers (reads.map .bytes) last.ofRead n) = some (.ok x)

/-- `onWrite` returns after finitely many of the results. -/
def WriteReturns (c : TcpConnection κ) (writes : List ℕ) (last : Persistent) : Prop :=
  ∃ n x, c.onWrite (firstAnswers (writes.map .count) last.ofWrite n) = some (.ok x)

/-- The bytes `onWrite` asks the socket to take: those in the out-buffer, and for a client the
frames of the messages it has to send. -/
def toWrite (c : TcpConnection κ) : ℕ :=
  c.outBuffer.readAble +
    match c.connectionType with
    | .byServer => 0
    | .byClient => (wire (c.writeDones.map (·.1))).length

variable {c c' : TcpConnection κ} {b b' : TcpBuffer} {reads : List ByteString} {writes : List ℕ}
  {last : Persistent} {out : TcpBuffer} {acc : List ByteString}

/-! ## The loop of onRead -/

/-- A grown in-buffer need not be grown again. -/
theorem growable_grown (hwf : b.WellFormed) (hgrow : Growable b) (h : grown b = .ok b') :
    Growable b' := by
  have hsize := hwf.write_le_size
  have hread := hwf.write_eq
  unfold grown at h
  split_ifs at h with hroom
  · have hlt := hgrow hroom
    rw [Bytes.wrap32_of_range (by omega) (by omega)] at h
    obtain ⟨b'', hb'', -, -, hlen, -, hwrite⟩ :=
      resizeBuffer_of_le hwf (n := 2 * b.buffer.length) (by omega) hlt
    obtain rfl := Except.ok.inj (h.symm.trans hb'')
    -- Only an in-buffer without any bytes is still full.
    intro hfull
    unfold TcpBuffer.writeAble at hroom hfull
    omega
  · obtain rfl := Except.ok.inj h
    exact hgrow

/-- An in-buffer that is read into in vain is asked for as much again. -/
theorem requested_of_writeAble {n : ℕ} (h : b.writeAble = n) (hpos : 1 ≤ n) : requested b = n := by
  unfold requested
  rw [if_neg (by omega), h]

/-- **The loop of `onRead` is left** when the socket does not fail for good, or a read is short. -/
theorem readLeaves_iff (hwf : b.WellFormed) (hgrow : Growable b)
    (hreads : ∀ bs ∈ reads, bs ≠ [] ∧ bs.length ≤ requested b) :
    (∃ o, Leaves readTurn (reads.map .bytes) last.ofRead b (.ok o)) ↔
      last ≠ .error ∨ ∃ bs ∈ reads, bs.length < requested b := by
  induction reads generalizing b with
  | nil =>
    simp only [List.map_nil, List.not_mem_nil, false_and, exists_false, or_false]
    obtain ⟨b', hgrown, -, -, -⟩ := exists_grown hwf hgrow
    have hturn := readTurn_of_grown hgrown
    cases last with
    | zero =>
      have hclose : readAnswer b' .closed = .done (.ok (.close b')) := rfl
      simp [leaves_nil, Persistent.ofRead, leaves_cons_done hturn hclose]
    | again =>
      have hall : readAnswer b' .again = .done (.ok (.readAll b')) := rfl
      simp [leaves_nil, Persistent.ofRead, leaves_cons_done hturn hall]
    | error =>
      simp only [ne_eq, not_true_eq_false, iff_false, not_exists]
      -- After an error, the loop is where it was.
      refine fun o => not_leaves (I := fun b => b.WellFormed ∧ Growable b) ⟨hwf, hgrow⟩ ?_
      rintro b ⟨hwf, hgrow⟩
      obtain ⟨b', hgrown, hwf', -, -⟩ := exists_grown hwf hgrow
      exact ⟨_, b', readTurn_of_grown hgrown, rfl, hwf', growable_grown hwf hgrow hgrown⟩
  | cons bs reads ih =>
    obtain ⟨⟨hne, hle⟩, hreads⟩ := List.forall_mem_cons.mp hreads
    obtain ⟨b', hgrown, hwf', -, hroom⟩ := exists_grown hwf hgrow
    have hturn := readTurn_of_grown hgrown
    rw [List.map_cons, List.exists_mem_cons_iff]
    rcases Nat.lt_or_ge bs.length (requested b) with hshort | hfull
    · simp [leaves_cons_done hturn (readAnswer_short (hroom ▸ hshort)), hshort]
    · -- A full read leaves as much room as it found, so that the next one asks for as much.
      have hlen : bs.length = b'.writeAble := by omega
      have hpos := List.length_pos_iff.mpr hne
      obtain ⟨hwf'', -, -, hroom''⟩ := receive_full hwf' hlen
      have hrequested : requested (b'.receive bs) = requested b := by
        rw [← hroom]
        exact requested_of_writeAble hroom'' (by omega)
      have hgrow'' : Growable (b'.receive bs) := fun hzero => by omega
      simp only [leaves_cons_next hturn (readAnswer_full hlen)]
      rw [ih hwf'' hgrow'' (by rwa [hrequested]), hrequested]
      simp [hfull.not_gt]

/-- `onRead` is its loop. -/
theorem readReturns_iff (hstate : c.state = .connected) :
    ReadReturns c reads last ↔
      ∃ o, Leaves readTurn (reads.map .bytes) last.ofRead c.inBuffer (.ok o) := by
  unfold ReadReturns Leaves
  simp only [onRead, if_neg (not_not_intro hstate), Option.map_eq_some_iff]
  constructor
  · rintro ⟨n, x, r, hr, hx⟩
    cases r with
    | error e => cases hx
    | ok o => exact ⟨o, n, hr⟩
  · rintro ⟨o, n, ho⟩
    exact ⟨n, c.afterRead o, .ok o, ho, rfl⟩

/-! ## The loop of onWrite -/

/-- **The loop of `onWrite` is left** when there is nothing to write, a write takes all, or the
socket would block for good. -/
theorem writeLeaves_iff :
    (∃ r, Leaves (writeTurn out) (writes.map .count) last.ofWrite acc r) ↔
      last = .again ∨ out.readAble = 0 ∨ ∃ n ∈ writes, out.readAble ≤ n := by
  by_cases hempty : out.readAble = 0
  · simp [leaves_of_done (writeTurn_of_empty hempty), hempty]
  have hturn : ∀ acc, writeTurn out acc = .ask (writeAnswer out acc) :=
    fun acc => writeTurn_of_ne hempty
  induction writes generalizing acc with
  | nil =>
    have hagain : ∀ acc, last.ofWrite ≠ .again → ∃ acc', writeAnswer out acc last.ofWrite =
        .next acc' := by
      intro acc hne
      cases last with
      | zero => exact ⟨_, if_neg (by omega)⟩
      | again => exact absurd rfl hne
      | error => exact ⟨_, rfl⟩
    cases last with
    | again =>
      have hleft : writeAnswer out acc .again = .done (acc, false) := rfl
      simp [leaves_nil, Persistent.ofWrite, leaves_cons_done (hturn acc) hleft]
    | zero | error =>
      simp only [List.map_nil, reduceCtorEq, hempty, List.not_mem_nil, false_and, exists_false,
        or_self, iff_false, not_exists]
      refine fun r => not_leaves (I := fun _ => True) trivial fun acc _ => ?_
      obtain ⟨acc', hnext⟩ := hagain acc (by simp [Persistent.ofWrite])
      exact ⟨_, acc', hturn acc, hnext, trivial⟩
  | cons n writes ih =>
    rw [List.map_cons, List.exists_mem_cons_iff]
    rcases Nat.lt_or_ge n out.readAble with hshort | hall
    · have hnext : writeAnswer out acc (.count n) = .next (acc ++ [out.readable.take n]) :=
        if_neg (by omega)
      simp only [leaves_cons_next (hturn acc) hnext, ih, hshort.not_ge, false_or]
    · have hdone : writeAnswer out acc (.count n) = .done (acc ++ [out.readable.take n], true) :=
        if_pos hall
      simp [leaves_cons_done (hturn acc) hdone, hall]

/-- What is left of the pending messages once they are encoded: the bytes to write. -/
theorem readAble_encodePending (hwf : c.outBuffer.WellFormed) (h : c.encodePending = .ok c') :
    c'.outBuffer.readAble = c.toWrite := by
  unfold encodePending at h
  unfold toWrite
  cases htype : c.connectionType with
  | byServer =>
    rw [htype] at h
    obtain rfl := Except.ok.inj h
    rfl
  | byClient =>
    rw [htype] at h
    cases hencode : encode (c.writeDones.map (·.1)) c.outBuffer with
    | error e =>
      rw [hencode] at h
      cases h
    | ok r =>
      obtain ⟨ms', out'⟩ := r
      rw [hencode] at h
      obtain rfl := Except.ok.inj h
      obtain ⟨-, hwf', hread, -⟩ := encode_eq hwf hencode
      rw [← hwf'.length_readable, hread, List.length_append, hwf.length_readable]

/-- `onWrite` encodes what is pending, and then is its loop. -/
theorem writeReturns_iff (hstate : c.state = .connected) :
    WriteReturns c writes last ↔ ∃ c', c.encodePending = .ok c' ∧
      ∃ r, Leaves (writeTurn c'.outBuffer) (writes.map .count) last.ofWrite [] r := by
  unfold WriteReturns Leaves
  simp only [onWrite, if_neg (not_not_intro hstate)]
  cases c.encodePending with
  | error e => simp
  | ok c' =>
    simp only [Option.map_eq_some_iff, Except.ok.injEq, exists_eq_left']
    constructor
    · rintro ⟨n, x, r, hr, -⟩
      exact ⟨r, n, hr⟩
    · rintro ⟨r, n, hr⟩
      exact ⟨n, _, r, hr, rfl⟩

/-- **The socket functions return** exactly if the connection is not connected, or the loop can be
entered and one of the results leaves it. -/
theorem returns_iff (c : TcpConnection κ) (reads : List ByteString) (writes : List ℕ)
    (last : Persistent) (hin : c.inBuffer.WellFormed) (hout : c.outBuffer.WellFormed)
    (hreads : ∀ bs ∈ reads, bs ≠ [] ∧ bs.length ≤ requested c.inBuffer) :
    (ReadReturns c reads last ↔ c.state ≠ .connected ∨
      Growable c.inBuffer ∧
        (last ≠ .error ∨ ∃ bs ∈ reads, bs.length < requested c.inBuffer)) ∧
    (WriteReturns c writes last ↔ c.state ≠ .connected ∨
      (∃ c', c.encodePending = .ok c') ∧
        (last = .again ∨ c.toWrite = 0 ∨ ∃ n ∈ writes, c.toWrite ≤ n)) := by
  by_cases hstate : c.state = .connected
  swap
  · -- Both functions return at once.
    refine ⟨iff_of_true ⟨0, .returns c, ?_⟩ (.inl hstate),
      iff_of_true ⟨0, ⟨c, [], false, []⟩, ?_⟩ (.inl hstate)⟩
    · rw [onRead, if_pos hstate]
      rfl
    · rw [onWrite, if_pos hstate]
      rfl
  rw [readReturns_iff hstate, writeReturns_iff hstate]
  simp only [hstate, ne_eq, not_true_eq_false, false_or]
  constructor
  · by_cases hgrow : Growable c.inBuffer
    · rw [readLeaves_iff hin hgrow hreads, and_iff_right hgrow]
    · -- The loop is left by the exception of the vector.
      have hturn : readTurn c.inBuffer = .done (.error .lengthError) := by
        rw [readTurn, grown_error hin hgrow]
      simp [leaves_of_done hturn, hgrow]
  · rw [← exists_and_right]
    refine exists_congr fun c' => and_congr_right fun hpending => ?_
    rw [writeLeaves_iff, readAble_encodePending hout hpending]

/-- A full read, a short one, and one write that would block: both functions return. -/
theorem returns_answered : ReadReturns emptyConnection [[1, 2, 3, 4], [5, 6]] .again ∧
    WriteReturns emptyConnection [] .again := by
  obtain ⟨hread, hwrite⟩ := returns_iff emptyConnection [[1, 2, 3, 4], [5, 6]] [] .again
    (by decide) (by decide) (by decide)
  refine ⟨hread.mpr (.inr ⟨?_, .inl (by decide)⟩), hwrite.mpr (.inr ⟨⟨_, rfl⟩, .inl rfl⟩)⟩
  unfold Growable
  decide

/-- A reset connection is read forever. -/
theorem not_returns_reset : ¬ ∀ (c : TcpConnection Unit) (reads : List ByteString)
    (writes : List ℕ) (last : Persistent), c.inBuffer.WellFormed → c.outBuffer.WellFormed →
    (∀ bs ∈ reads, bs ≠ [] ∧ bs.length ≤ requested c.inBuffer) → (∀ n ∈ writes, 0 < n) →
    ReadReturns c reads last ∧ WriteReturns c writes last := by
  intro h
  obtain ⟨hread, -⟩ := h emptyConnection [] [] .error (by decide) (by decide) (by simp) (by simp)
  rw [readReturns_iff rfl, readLeaves_iff (by decide) (fun _ => by decide) (by simp)] at hread
  simp at hread

end TcpConnection

end TalonRPC
