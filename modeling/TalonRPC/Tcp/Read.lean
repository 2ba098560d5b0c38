import TalonRPC.Tcp.Connection

/-!
# What onRead receives

`onRead` reads until the socket returns fewer bytes than it asked for or would block, and then lets
`excute` handle the messages. The readable bytes should then be the earlier ones and all it has
read. But `moveWriteIndex` refuses to move to the end of the vector: the bytes of a read that fills
the room of the in-buffer stay behind the write index, and the next read overwrites them.

## Main definitions

* `requested b`: the bytes `onRead` asks the socket for
* `Answers b rs`: what a socket answers when nothing fails and the peer does not close
* `received rs`: the bytes of these answers

## Main results

* `Answers.readAll`: of all bytes read, the in-buffer holds those of the last answer
* `keepsAll_iff`: all of them are there exactly if no read fills the room of the in-buffer, and a
  full one can be grown
-/

namespace TalonRPC

namespace TcpConnection

open Machine TcpBuffer

variable {κ : Type}

/-- The bytes `onRead` asks the socket for: as many as the in-buffer has room for, once it has
grown. -/
def requested (b : TcpBuffer) : ℕ :=
  if b.writeAble = 0 then 2 * b.buffer.length - b.readAble else b.writeAble

/-- The in-buffer can be grown if it is to be. -/
def Growable (b : TcpBuffer) : Prop := b.writeAble = 0 → 2 * b.buffer.length < 2 ^ 31

namespace ReadResult

/-- The bytes of an answer. -/
def data : ReadResult → ByteString
  | .bytes bs => bs
  | _ => []

end ReadResult

/-- The bytes of all answers. -/
def received (rs : List ReadResult) : ByteString := rs.flatMap ReadResult.data

/-- The answers of a socket that returns between one and the requested number of bytes, until a
read is short or would block. -/
inductive Answers : TcpBuffer → List ReadResult → Prop
  | again {b : TcpBuffer} : Answers b [.again]
  | short {b : TcpBuffer} {bs : ByteString} (hne : bs ≠ []) (hlt : bs.length < requested b) :
      Answers b [.bytes bs]
  | full {b b' : TcpBuffer} {bs : ByteString} {rs : List ReadResult} (hgrown : grown b = .ok b')
      (hne : bs ≠ []) (hlen : bs.length = b'.writeAble) (hrest : Answers (b'.receive bs) rs) :
      Answers b (.bytes bs :: rs)

/-- `onRead` comes to `excute` with the earlier readable bytes and all bytes of the answers. -/
def KeepsAll (c : TcpConnection κ) (rs : List ReadResult) : Prop :=
  ∃ c', c.onRead rs = some (.ok (.excutes c')) ∧
    c'.inBuffer.readable = c.inBuffer.readable ++ received rs

variable {b b' : TcpBuffer} {bs : ByteString} {rs : List ReadResult}

/-! ## One iteration -/

/-- A growable in-buffer has room for the requested bytes, and holds what it held. -/
theorem exists_grown (hwf : b.WellFormed) (hgrow : Growable b) :
    ∃ b', grown b = .ok b' ∧ b'.WellFormed ∧ b'.readable = b.readable ∧
      b'.writeAble = requested b := by
  have hread := hwf.write_eq
  have hsize := hwf.write_le_size
  unfold grown requested
  split_ifs with hroom
  · have hlt := hgrow hroom
    rw [Bytes.wrap32_of_range (by omega) (by omega)]
    -- The new vector is twice as long, and the readable bytes move to its front.
    obtain ⟨b', hb', hwf', hread', hlen, -, hwrite⟩ :=
      resizeBuffer_of_le hwf (n := 2 * b.buffer.length) (by omega) hlt
    refine ⟨b', ?_, hwf', hread', ?_⟩
    · rw [← hb']
      rfl
    · rw [TcpBuffer.writeAble, hlen, hwrite]
  · exact ⟨b, rfl, hwf, rfl, rfl⟩

/-- A full in-buffer of `2 ^ 30` bytes or more asks for a vector of a negative size. -/
theorem grown_error (hwf : b.WellFormed) (hgrow : ¬ Growable b) :
    grown b = .error .lengthError := by
  obtain ⟨hroom, hlarge⟩ : b.writeAble = 0 ∧ 2 ^ 31 ≤ 2 * b.buffer.length := by
    unfold Growable at hgrow
    push Not at hgrow
    exact hgrow
  have hsize := hwf.size_lt
  have hrange := Bytes.wrap32_range (2 * b.buffer.length)
  -- The doubled size lies between `2 ^ 31` and `2 ^ 32`, so as an int it is negative.
  obtain ⟨k, hk⟩ := Bytes.wrap32_eq (2 * b.buffer.length)
  rw [grown, if_pos hroom, TcpBuffer.resizeBuffer, if_pos (by omega)]

theorem requested_pos (hwf : b.WellFormed) (hcap : 1 ≤ b.buffer.length) : 1 ≤ requested b := by
  have hread := hwf.write_eq
  have hsize := hwf.write_le_size
  unfold requested
  split_ifs with hroom <;> omega

/-- The bytes of a read that fills the room stay behind the write index. -/
theorem receive_full (hwf : b.WellFormed) (hlen : bs.length = b.writeAble) :
    (b.receive bs).WellFormed ∧ (b.receive bs).readable = b.readable ∧
      (b.receive bs).buffer.length = b.buffer.length ∧ (b.receive bs).writeAble = b.writeAble := by
  have hsize := hwf.write_le_size
  have hlength := length_overwrite b bs (by rw [hlen]; unfold TcpBuffer.writeAble; omega)
  rw [receive_of_full hwf hlen]
  refine ⟨⟨hwf.read_le_write, ?_, ?_⟩, ?_, hlength, ?_⟩
  · rw [hlength]
    exact hsize
  · rw [hlength]
    exact hwf.size_lt
  · -- The readable bytes are the front part of what the vector holds behind the read index.
    have htake := congrArg (List.take b.readAble) (slice_overwrite hwf bs)
    rw [List.take_left' hwf.length_readable, Bytes.slice, List.take_take,
      Nat.min_eq_left (by omega)] at htake
    exact htake
  · rw [TcpBuffer.writeAble, hlength]
    rfl

/-! ## The loop -/

theorem readTurn_of_grown (h : grown b = .ok b') : readTurn b = .ask (readAnswer b') := by
  rw [readTurn, h]

theorem readAnswer_short (hlt : bs.length < b.writeAble) :
    readAnswer b (.bytes bs) = .done (.ok (.readAll (b.receive bs))) := by
  rw [readAnswer, if_neg (by omega), if_pos hlt]

theorem readAnswer_full (hlen : bs.length = b.writeAble) :
    readAnswer b (.bytes bs) = .next (b.receive bs) := by
  rw [readAnswer, if_neg (by omega), if_neg (by omega)]

theorem Answers.ne_nil (h : Answers b rs) : rs ≠ [] := by
  cases h <;> exact List.cons_ne_nil _ _

/-- **What a read leaves**: of all bytes read, the in-buffer holds those of the last answer. -/
theorem Answers.readAll (h : Answers b rs) (hwf : b.WellFormed) (hcap : 1 ≤ b.buffer.length)
    (hgrow : Growable b) :
    ∃ b', converse readTurn rs b = some (.ok (.readAll b')) ∧
      b'.readable = b.readable ++ (rs.getLast h.ne_nil).data := by
  -- The answers decide the iterations: every full read is followed by another one.
  induction h with
  | again =>
    obtain ⟨b', hgrown, -, hread, -⟩ := exists_grown hwf hgrow
    refine ⟨b', (converse_done (readTurn_of_grown hgrown) rfl).mpr ⟨rfl, rfl⟩, ?_⟩
    rw [hread]
    exact (List.append_nil _).symm
  | @short b bs hne hlt =>
    obtain ⟨b', hgrown, hwf', hread, hroom⟩ := exists_grown hwf hgrow
    have hshort : bs.length < b'.writeAble := by omega
    refine ⟨b'.receive bs, (converse_done (readTurn_of_grown hgrown)
      (readAnswer_short hshort)).mpr ⟨rfl, rfl⟩, ?_⟩
    rw [(receive_of_lt hwf' hshort).2.1, hread]
    rfl
  | @full b b' bs rs hgrown hne hlen hrest ih =>
    obtain ⟨b₁, hgrown', hwf', hread, hroom⟩ := exists_grown hwf hgrow
    obtain rfl := Except.ok.inj (hgrown.symm.trans hgrown')
    obtain ⟨hwf'', hread'', hlen'', hroom''⟩ := receive_full hwf' hlen
    -- There is as much room as before, so that the next iteration does not grow the buffer.
    have hpos := requested_pos hwf hcap
    have hcap'' : 1 ≤ (b'.receive bs).buffer.length := by
      rw [hlen'']
      unfold TcpBuffer.writeAble at hroom
      omega
    have hgrow'' : Growable (b'.receive bs) := fun hzero => by omega
    obtain ⟨b₂, hconv, hread₂⟩ := ih hwf'' hcap'' hgrow''
    refine ⟨b₂, ?_, ?_⟩
    · rw [converse_next (readTurn_of_grown hgrown) (readAnswer_full hlen)]
      exact hconv
    · rw [hread₂, hread'', hread, List.getLast_cons hrest.ne_nil]

/-- The last answer's bytes are the last received. -/
theorem length_data_getLast_le (h : rs ≠ []) :
    (rs.getLast h).data.length ≤ (received rs).length := by
  have hmem := List.getLast_mem h
  exact (List.sublist_flatten_of_mem (List.mem_map_of_mem hmem)).length_le

theorem onRead_eq_excutes_iff {c c' : TcpConnection κ} (hstate : c.state = .connected) :
    c.onRead rs = some (.ok (.excutes c')) ↔
      ∃ b, converse readTurn rs c.inBuffer = some (.ok (.readAll b)) ∧
        c' = { c with inBuffer := b } := by
  rw [onRead, if_neg (not_not_intro hstate)]
  cases hconv : converse readTurn rs c.inBuffer with
  | none => simp
  | some left =>
    rcases left with e | (b | b) <;> simp [Except.map, afterRead, eq_comm]

/-- Where the in-buffer cannot be grown, `excute` is not reached. -/
theorem not_keepsAll_of_not_growable {c : TcpConnection κ} (hstate : c.state = .connected)
    (hwf : c.inBuffer.WellFormed) (hgrow : ¬ Growable c.inBuffer) : ¬ KeepsAll c rs := by
  rintro ⟨c', hread, -⟩
  obtain ⟨b, hconv, -⟩ := (onRead_eq_excutes_iff hstate).mp hread
  -- The loop ends before it reads.
  have hturn : readTurn c.inBuffer = .done (.error .lengthError) := by
    rw [readTurn, grown_error hwf hgrow]
  cases ((converse_of_done hturn).mp hconv).2

/-- `onRead` keeps all bytes if those of the last answer are all there are. -/
theorem keepsAll_iff_last {c : TcpConnection κ} (hstate : c.state = .connected)
    (hwf : c.inBuffer.WellFormed) (hcap : 1 ≤ c.inBuffer.buffer.length)
    (hgrow : Growable c.inBuffer) (h : Answers c.inBuffer rs) :
    KeepsAll c rs ↔ received rs = (rs.getLast h.ne_nil).data := by
  obtain ⟨b, hconv, hread⟩ := h.readAll hwf hcap hgrow
  constructor
  · rintro ⟨c', hexcutes, hkept⟩
    obtain ⟨b', hconv', rfl⟩ := (onRead_eq_excutes_iff hstate).mp hexcutes
    obtain rfl : b = b' := by
      rw [hconv] at hconv'
      cases hconv'
      rfl
    rw [hread] at hkept
    exact (List.append_cancel_left hkept).symm
  · intro hlast
    refine ⟨_, (onRead_eq_excutes_iff hstate).mpr ⟨b, hconv, rfl⟩, ?_⟩
    rw [hlast]
    exact hread

/-- **No byte is lost** exactly if every read returns fewer bytes than it asked for, and a full
in-buffer has fewer than `2 ^ 30` bytes. -/
theorem keepsAll_iff (c : TcpConnection κ) (rs : List ReadResult) (hstate : c.state = .connected)
    (hwf : c.inBuffer.WellFormed) (hcap : 1 ≤ c.inBuffer.buffer.length)
    (h : Answers c.inBuffer rs) :
    KeepsAll c rs ↔
      (∀ bs, .bytes bs ∈ rs → bs.length < requested c.inBuffer) ∧ Growable c.inBuffer := by
  by_cases hgrow : Growable c.inBuffer
  swap
  · simp only [hgrow, and_false, iff_false]
    exact not_keepsAll_of_not_growable hstate hwf hgrow
  rw [keepsAll_iff_last hstate hwf hcap hgrow h, and_iff_left hgrow]
  cases h with
  | again => simp [received, ReadResult.data]
  | short hne hlt => simp [received, ReadResult.data, hlt]
  | @full _ b' bs rs hgrown hne hlen hrest =>
    -- A full read is not the last one, and its bytes are not among those of the last.
    have hlast := length_data_getLast_le hrest.ne_nil
    obtain ⟨b'', hgrown', -, -, hroom⟩ := exists_grown hwf hgrow
    obtain rfl := Except.ok.inj (hgrown.symm.trans hgrown')
    constructor
    · intro hreceived
      have hlength := congrArg List.length hreceived
      rw [List.getLast_cons hrest.ne_nil, received, List.flatMap_cons,
        List.length_append] at hlength
      -- What the first read returned would have to be part of the last answer.
      have hpos := List.length_pos_iff.mpr hne
      change bs.length + (received rs).length = _ at hlength
      omega
    · intro hshort
      have hlt := hshort bs (List.mem_cons_self ..)
      omega

/-- A connection whose in-buffer holds three bytes, up to its end. -/
def fullConnection : TcpConnection Unit :=
  { inBuffer := ⟨[6, 7, 8, 9], 1, 4⟩, outBuffer := .new 4, state := .connected }

/-- The in-buffer is grown to eight bytes, and four more fit. -/
theorem keepsAll_iff_grown : KeepsAll fullConnection [.bytes [1, 2, 3, 4]] :=
  (keepsAll_iff fullConnection [.bytes [1, 2, 3, 4]] rfl (by decide) (by decide)
    (.short (by decide) (by decide))).mpr
    ⟨fun bs hbs => by
      obtain rfl : bs = [1, 2, 3, 4] := by simpa using hbs
      decide, fun _ => by decide⟩

/-- An in-buffer of four bytes is filled by the first read: nothing of it is received. -/
def emptyConnection : TcpConnection Unit :=
  { inBuffer := .new 4, outBuffer := .new 4, state := .connected }

theorem not_keepsAll_filled :
    emptyConnection.state = .connected ∧ emptyConnection.inBuffer.WellFormed ∧
      1 ≤ emptyConnection.inBuffer.buffer.length ∧
      Answers emptyConnection.inBuffer [.bytes [1, 2, 3, 4], .again] ∧
      ¬ KeepsAll emptyConnection [.bytes [1, 2, 3, 4], .again] := by
  refine ⟨rfl, by decide, by decide, .full rfl (by decide) (by decide) .again, ?_⟩
  rintro ⟨c', hread, hkept⟩
  have hresult : emptyConnection.onRead [.bytes [1, 2, 3, 4], .again] = some (.ok (.excutes
      { emptyConnection with inBuffer := ⟨[1, 2, 3, 4], 0, 0⟩ })) := by decide
  rw [hresult] at hread
  cases hread
  exact absurd hkept (by decide)

end TcpConnection

end TalonRPC
