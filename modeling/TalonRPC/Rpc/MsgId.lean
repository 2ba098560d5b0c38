import TalonRPC.Machine.Run
import TalonRPC.Tcp.Decimal

/-!
# Message ids

A thread draws its first message id, twenty random digits, and counts up from it. When all digits
are nines a new one is drawn. Whether they are is found out by a comparison with the largest id,
which every draw makes longer by twenty nines: after the second draw no id is equal to it, and the
carry of twenty nines runs out of the string.

## Main definitions

* `MsgIDUtil`, `genMsgID`: the strings of a thread, and the next id
* `MsgIds`, `msgIdStep`: the ids of a thread, one after the other
* `Lawful`: a call returns an id, the one that follows the last or a new one
* `Guarded`: where all digits are nines, these are the largest id

## Main results

* `genMsgID_count`: counting up adds one
* `lawful_iff_guarded`: a call is lawful exactly if it is guarded
* `alongLawful_iff_guarded`: all calls of a thread are lawful exactly if all are guarded
-/

namespace TalonRPC

open Machine

namespace MsgIDUtil

/-- `g_msg_id_length`. -/
def msgIdLength : ℕ := 20

/-- What a `read` of `/dev/urandom` stores, if it returns as many bytes as an id has digits. -/
abbrev Draw := { res : ByteString // res.length = msgIdLength }

/-- The id of a draw: each byte modulo ten, as a digit. -/
def Draw.id (d : Draw) : ByteString := d.val.map fun x => digitByte (x.toNat % 10)

end MsgIDUtil

open MsgIDUtil

/-- The strings of `MsgIDUtil`, for one thread. -/
structure MsgIDUtil where
  msgIdNo : ByteString := []
  maxMsgIdNo : ByteString := []
  deriving DecidableEq, Repr

namespace MsgIDUtil

/-- The loop that looks for a digit other than nine, from `i` down. Below zero the index wraps
around, and the next access is outside of the string. -/
def carry (s : ByteString) : ℕ → Except Fault ℕ
  | 0 => if s[0]? = some 0x39 then .error .outOfBounds else .ok 0
  | i + 1 => if s[i + 1]? = some 0x39 then carry s i else .ok (i + 1)

/-- The string with one more at `i`, and zeros behind it. -/
def carried (s : ByteString) (i : ℕ) : ByteString :=
  (s.modify i (· + 1)).take (i + 1) ++ List.replicate (s.length - (i + 1)) 0x30

/-- `MsgIDUtil::GenMsgID`, with what it reads from `/dev/urandom` if it does so: the id, and the
strings afterwards. -/
def genMsgID (u : MsgIDUtil) (read : Option Draw) : Except Fault (ByteString × MsgIDUtil) :=
  if u.msgIdNo = [] ∨ u.msgIdNo = u.maxMsgIdNo then
    match read with
    | none => .ok ([], u)
    | some d => .ok (d.id, ⟨d.id, u.maxMsgIdNo ++ List.replicate msgIdLength 0x39⟩)
  else
    (carry u.msgIdNo (u.msgIdNo.length - 1)).map fun i =>
      (carried u.msgIdNo i, { u with msgIdNo := carried u.msgIdNo i })

/-- The id of twenty nines. -/
def nines : ByteString := List.replicate msgIdLength 0x39

/-- A message id: twenty digits. -/
structure IsMsgId (x : ByteString) : Prop where
  length : x.length = msgIdLength
  digits : ∀ c ∈ x, isDigit c = true

end MsgIDUtil

/-- A thread, with the last id it got. -/
structure MsgIds where
  util : MsgIDUtil := {}
  last : ByteString := []
  deriving DecidableEq, Repr

/-- A call of `GenMsgID`, if it returns. -/
def msgIdStep (s : MsgIds) (read : Option Draw) : Option MsgIds :=
  match s.util.genMsgID read with
  | .ok (id, u) => some ⟨u, id⟩
  | .error _ => none

namespace MsgIds

/-- **A call is lawful**: it returns, with nothing or twenty digits; after an id other than nines it
returns the next number, and after nines a new id, if there is one. -/
structure Lawful (s : MsgIds) (read : Option Draw) : Prop where
  returns : (s.util.genMsgID read).isOk
  isMsgId : ∀ x u, s.util.genMsgID read = .ok (x, u) → x ≠ [] → IsMsgId x
  next : ∀ x u, s.util.genMsgID read = .ok (x, u) → s.last ≠ [] → s.last ≠ nines →
    IsMsgId x ∧ digits x = digits s.last + 1
  fresh : ∀ x u, s.util.genMsgID read = .ok (x, u) → s.last = nines →
    x = (read.map Draw.id).getD []

/-- Where all digits are nines, this is the largest id. -/
def Guarded (s : MsgIds) (_read : Option Draw) : Prop :=
  s.util.msgIdNo = nines → s.util.maxMsgIdNo = nines

instance (s : MsgIds) (read : Option Draw) : Decidable (Guarded s read) :=
  inferInstanceAs (Decidable (_ → _))

/-- What every call leaves: no id yet, or one of twenty digits and the largest one of as many nines
for each draw. The id is the last result, unless it is nines and a draw has failed. -/
inductive Reached : MsgIds → Prop
  | undrawn : Reached {}
  | drawn {id last : ByteString} {k : ℕ} (hid : IsMsgId id)
      (hlast : last = id ∨ last = [] ∧ id = nines) :
      Reached ⟨⟨id, List.replicate (msgIdLength * (k + 1)) 0x39⟩, last⟩

end MsgIds

/-! ## Counting up -/

namespace MsgIDUtil

variable {id front : ByteString} {c : UInt8} {n : ℕ}

theorem carry_of_ne {i : ℕ} (h : id[i]? ≠ some 0x39) : carry id i = .ok i := by
  cases i with
  | zero => exact if_neg h
  | succ i => exact if_neg h

/-- The loop passes over the nines at the end. -/
theorem carry_append (hc : c ≠ 0x39) {m : ℕ} (hm : m ≤ n) :
    carry (front ++ c :: List.replicate n 0x39) (front.length + m) = .ok front.length := by
  induction m with
  | zero =>
    refine carry_of_ne ?_
    simpa using hc
  | succ m ih =>
    have hnine : (front ++ c :: List.replicate n (0x39 : UInt8))[front.length + m + 1]? =
        some 0x39 := by
      rw [List.getElem?_append_right (by omega), Nat.add_assoc, Nat.add_sub_cancel_left,
        List.getElem?_cons_succ, List.getElem?_replicate, if_pos (by omega)]
    rw [← Nat.add_assoc, carry, if_pos hnine]
    exact ih (by omega)

theorem carried_append : carried (front ++ c :: List.replicate n 0x39) front.length =
    front ++ (c + 1) :: List.replicate n 0x30 := by
  have hmodify : (front ++ c :: List.replicate n 0x39).modify front.length (· + 1) =
      (front ++ [c + 1]) ++ List.replicate n 0x39 := by
    rw [List.modify_eq_take_drop, List.take_left, List.drop_left]
    simp
  have hrest : (front ++ c :: List.replicate n (0x39 : UInt8)).length - (front.length + 1) = n := by
    simp only [List.length_append, List.length_cons, List.length_replicate]
    omega
  rw [carried, hmodify, List.take_left' (by simp), hrest, List.append_assoc, List.singleton_append]

/-- Digits that are not all nines end with nines, as many as there are, behind another one. -/
theorem exists_nines (h : id ≠ List.replicate id.length 0x39) :
    ∃ front c n, id = front ++ c :: List.replicate n 0x39 ∧ c ≠ 0x39 := by
  induction id using List.reverseRecOn with
  | nil => exact absurd rfl h
  | append_singleton id d ih =>
    by_cases hd : d = 0x39
    · subst hd
      have hid : id ≠ List.replicate id.length 0x39 := by
        intro hid
        rw [List.length_append, List.length_singleton, List.replicate_succ', ← hid] at h
        exact h rfl
      obtain ⟨front, c, n, rfl, hc⟩ := ih hid
      exact ⟨front, c, n + 1, by rw [List.replicate_succ']; simp, hc⟩
    · exact ⟨id, d, 0, by simp, hd⟩

/-- The value of digits, behind those of `a`. -/
def valueFrom (a : ℕ) (id : ByteString) : ℕ := id.foldl (fun n c => 10 * n + (c.toNat - 0x30)) a

theorem valueFrom_append (a : ℕ) (id front : ByteString) :
    valueFrom a (front ++ id) = valueFrom (valueFrom a front) id := by
  rw [valueFrom, List.foldl_append, valueFrom, valueFrom]

theorem valueFrom_cons (a : ℕ) (c : UInt8) (id : ByteString) :
    valueFrom a (c :: id) = valueFrom (10 * a + (c.toNat - 0x30)) id := by
  rw [valueFrom, List.foldl_cons, valueFrom]

theorem valueFrom_nines (a n : ℕ) :
    valueFrom a (List.replicate n 0x39) + 1 = (a + 1) * 10 ^ n := by
  induction n generalizing a with
  | zero => simp [valueFrom]
  | succ n ih =>
    rw [List.replicate_succ, valueFrom_cons, ih, pow_succ, show (0x39 : UInt8).toNat = 57 from rfl]
    ring

theorem valueFrom_zeros (a n : ℕ) : valueFrom a (List.replicate n 0x30) = a * 10 ^ n := by
  induction n generalizing a with
  | zero => simp [valueFrom]
  | succ n ih =>
    rw [List.replicate_succ, valueFrom_cons, ih, pow_succ, show (0x30 : UInt8).toNat = 48 from rfl]
    ring

theorem IsMsgId.digits_eq (h : IsMsgId id) : TalonRPC.digits id = valueFrom 0 id := by
  rw [TalonRPC.digits, List.takeWhile_eq_self_iff.mpr h.digits, valueFrom]

/-- A digit other than nine has a next one. -/
theorem isDigit_succ (h : isDigit c = true) (hc : c ≠ 0x39) :
    isDigit (c + 1) = true ∧ (c + 1).toNat - 0x30 = c.toNat - 0x30 + 1 := by
  rw [isDigit_iff] at h ⊢
  have hne : c.toNat ≠ 0x39 := fun heq => hc (UInt8.toNat_inj.mp heq)
  have hsucc : (c + 1).toNat = c.toNat + 1 := by
    rw [UInt8.toNat_add, show (1 : UInt8).toNat = 1 from rfl]
    omega
  omega

/-- **Counting up adds one**, unless all digits are nines. -/
theorem genMsgID_count {u : MsgIDUtil} (hid : IsMsgId u.msgIdNo) (hnines : u.msgIdNo ≠ nines)
    (hmax : u.msgIdNo ≠ u.maxMsgIdNo) (read : Option Draw) :
    ∃ x, u.genMsgID read = .ok (x, { u with msgIdNo := x }) ∧ IsMsgId x ∧
      digits x = digits u.msgIdNo + 1 := by
  have hne : u.msgIdNo ≠ [] := fun hempty => by
    have := hid.length
    rw [hempty] at this
    cases this
  have hsome : u.msgIdNo ≠ List.replicate u.msgIdNo.length 0x39 := by rwa [hid.length]
  obtain ⟨front, c, n, heq, hc⟩ := exists_nines hsome
  have hlength : front.length + n = u.msgIdNo.length - 1 := by
    rw [heq]
    simp
  have hdigit : ∀ d ∈ front ++ c :: List.replicate n (0x39 : UInt8), isDigit d = true := by
    rw [← heq]
    exact hid.digits
  obtain ⟨hsucc, hvalue⟩ := isDigit_succ (hdigit c (by simp)) hc
  have hx : IsMsgId (front ++ (c + 1) :: List.replicate n 0x30) := by
    refine ⟨?_, fun d hd => ?_⟩
    · rw [← hid.length, heq]
      simp
    · rcases List.mem_append.mp hd with hd | hd
      · exact hdigit d (List.mem_append_left _ hd)
      rcases List.mem_cons.mp hd with rfl | hd
      · exact hsucc
      · rw [List.eq_of_mem_replicate hd]
        rfl
  refine ⟨_, ?_, hx, ?_⟩
  · unfold genMsgID
    rw [if_neg (not_or.mpr ⟨hne, hmax⟩), ← hlength, heq, carry_append hc le_rfl]
    simp [Except.map, carried_append]
  · -- The nines behind the carry make up for the zeros.
    rw [hx.digits_eq, hid.digits_eq, heq, valueFrom_append, valueFrom_append, valueFrom_cons,
      valueFrom_cons, valueFrom_nines, valueFrom_zeros, hvalue, Nat.add_assoc]

/-- The bytes of a draw are made into digits. -/
theorem Draw.isMsgId (d : Draw) : IsMsgId d.id := by
  refine ⟨(List.length_map _).trans d.property, fun c hc => ?_⟩
  obtain ⟨x, -, rfl⟩ := List.mem_map.mp hc
  exact isDigit_digitByte (Nat.mod_lt _ (by norm_num))

theorem isMsgId_nines : IsMsgId nines := by
  refine ⟨rfl, fun c hc => ?_⟩
  rw [List.eq_of_mem_replicate hc]
  rfl

/-- The largest id has as many nines as there are digits only after one draw. -/
theorem max_eq_iff (hid : IsMsgId id) {k : ℕ} :
    id = List.replicate (msgIdLength * (k + 1)) 0x39 ↔ id = nines ∧ k = 0 := by
  constructor
  · intro h
    have hlength := congrArg List.length h
    rw [hid.length, List.length_replicate, msgIdLength] at hlength
    obtain rfl : k = 0 := by omega
    exact ⟨h, rfl⟩
  · rintro ⟨h, rfl⟩
    exact h

/-- What a call does in a thread that has drawn: it draws again after the first nines, runs out of
the string at later ones, and counts up otherwise. -/
theorem genMsgID_drawn (hid : IsMsgId id) (k : ℕ) (read : Option Draw) :
    (id = nines ∧ k = 0 ∧ genMsgID ⟨id, List.replicate (msgIdLength * (k + 1)) 0x39⟩ read =
      match read with
      | none => .ok ([], ⟨id, List.replicate (msgIdLength * (k + 1)) 0x39⟩)
      | some d => .ok (d.id, ⟨d.id, List.replicate (msgIdLength * (k + 1 + 1)) 0x39⟩)) ∨
    (id = nines ∧ k ≠ 0 ∧ genMsgID ⟨id, List.replicate (msgIdLength * (k + 1)) 0x39⟩ read =
      .error .outOfBounds) ∨
    (id ≠ nines ∧ ∃ x, genMsgID ⟨id, List.replicate (msgIdLength * (k + 1)) 0x39⟩ read =
      .ok (x, ⟨x, List.replicate (msgIdLength * (k + 1)) 0x39⟩) ∧ IsMsgId x ∧
        digits x = digits id + 1) := by
  have hne : id ≠ [] := fun hempty => by
    have := hid.length
    rw [hempty] at this
    cases this
  by_cases hnines : id = nines
  · by_cases hk : k = 0
    · left
      refine ⟨hnines, hk, ?_⟩
      unfold genMsgID
      rw [if_pos (.inr ((max_eq_iff hid).mpr ⟨hnines, hk⟩))]
      cases read with
      | none => rfl
      | some d => simp [Nat.mul_add]
    · right
      left
      refine ⟨hnines, hk, ?_⟩
      unfold genMsgID
      rw [if_neg (not_or.mpr ⟨hne, fun h => hk ((max_eq_iff hid).mp h).2⟩)]
      subst hnines
      rfl
  · right
    right
    exact ⟨hnines, genMsgID_count hid hnines (fun h => hnines ((max_eq_iff hid).mp h).1) read⟩

end MsgIDUtil

/-! ## The calls of a thread -/

namespace MsgIds

variable {s s' : MsgIds} {read : Option Draw}

theorem Reached.step (h : Reached s) (hstep : msgIdStep s read = some s') : Reached s' := by
  rw [msgIdStep] at hstep
  split at hstep
  swap
  · cases hstep
  rename_i x u hgen
  obtain rfl := Option.some.inj hstep
  cases h with
  | undrawn =>
    cases read with
    | none =>
      cases hgen
      exact .undrawn
    | some d =>
      cases hgen
      exact .drawn (k := 0) (Draw.isMsgId d) (.inl rfl)
  | @drawn id last k hid hlast =>
    rcases genMsgID_drawn hid k read with
      ⟨hnines, -, hdraw⟩ | ⟨-, -, herror⟩ | ⟨-, y, hcount, hy, -⟩
    · rw [hdraw] at hgen
      cases read with
      | none =>
        cases hgen
        exact .drawn hid (.inr ⟨rfl, hnines⟩)
      | some d =>
        cases hgen
        exact .drawn (Draw.isMsgId d) (.inl rfl)
    · rw [herror] at hgen
      cases hgen
    · rw [hcount] at hgen
      cases hgen
      exact .drawn hy (.inl rfl)

/-- A call that draws is lawful, if there is no number to follow. -/
theorem lawful_of_draws
    (h : ∃ u, s.util.genMsgID read = .ok ((read.map Draw.id).getD [], u))
    (hlast : s.last = [] ∨ s.last = nines) : Lawful s read := by
  obtain ⟨u, hdraw⟩ := h
  refine ⟨?_, ?_, ?_, ?_⟩
  · rw [hdraw]
    rfl
  · intro x u hgen hne
    rw [hdraw] at hgen
    cases hgen
    cases read with
    | none => exact absurd rfl hne
    | some d => exact Draw.isMsgId d
  · intro x u _ hne hother
    rcases hlast with hempty | hnines
    · exact absurd hempty hne
    · exact absurd hnines hother
  · intro x u hgen _
    rw [hdraw] at hgen
    cases hgen
    rfl

/-- **A call is lawful** exactly if it is guarded. -/
theorem lawful_iff_guarded (h : Reached s) : Lawful s read ↔ Guarded s read := by
  cases h with
  | undrawn =>
    refine iff_of_true (lawful_of_draws ?_ (.inl rfl)) fun hnines => by cases hnines
    cases read with
    | none => exact ⟨_, rfl⟩
    | some d => exact ⟨_, rfl⟩
  | @drawn id last k hid hlast =>
    have hguarded : Guarded ⟨⟨id, List.replicate (msgIdLength * (k + 1)) 0x39⟩, last⟩ read ↔
        (id = nines → k = 0) := by
      refine forall_congr' fun _ => ?_
      rw [eq_comm, max_eq_iff isMsgId_nines]
      simp
    rw [hguarded]
    rcases genMsgID_drawn hid k read with ⟨hnines, hk, hdraw⟩ | ⟨hnines, hk, herror⟩ |
      ⟨hnines, y, hcount, hy, hvalue⟩
    · refine iff_of_true (lawful_of_draws ?_ ?_) fun _ => hk
      · rw [hdraw]
        cases read with
        | none => exact ⟨_, rfl⟩
        | some d => exact ⟨_, rfl⟩
      · rcases hlast with rfl | ⟨hempty, -⟩
        · exact .inr hnines
        · exact .inl hempty
    · refine iff_of_false (fun hlawful => ?_) fun hall => hk (hall hnines)
      have hreturns := hlawful.returns
      rw [herror] at hreturns
      cases hreturns
    · refine iff_of_true ⟨?_, ?_, ?_, ?_⟩ fun h => absurd h hnines
      · rw [hcount]
        rfl
      · intro x u hgen _
        rw [hcount] at hgen
        cases hgen
        exact hy
      · intro x u hgen hne _
        rw [hcount] at hgen
        cases hgen
        rcases hlast with rfl | ⟨rfl, -⟩
        · exact ⟨hy, hvalue⟩
        · exact absurd rfl hne
      · rintro x u - rfl
        rcases hlast with hid' | ⟨hempty, -⟩
        · exact absurd hid'.symm hnines
        · cases hempty

/-- **All calls of a thread are lawful** exactly if all are guarded. -/
theorem alongLawful_iff_guarded (reads : List (Option Draw)) :
    Along msgIdStep Lawful {} reads ↔ Along msgIdStep Guarded {} reads :=
  along_congr (I := Reached) .undrawn (fun _ _ => lawful_iff_guarded) fun _ _ _ => Reached.step

/-- A draw that makes nines. -/
def drawnNines : Draw := ⟨List.replicate 20 9, rfl⟩

/-- Nines that are drawn twice cannot be counted up, and are not drawn again. -/
theorem not_alongLawful_drawnTwice : ¬ ∀ reads, Along msgIdStep Lawful {} reads := by
  intro h
  have hrun : exec msgIdStep {} [some drawnNines, some drawnNines] =
      some ⟨⟨nines, nines ++ nines⟩, nines⟩ := by decide
  have hreturns := ((h ([some drawnNines, some drawnNines] ++ [some drawnNines])).last hrun).returns
  revert hreturns
  decide

end MsgIds

end TalonRPC
