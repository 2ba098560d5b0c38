import Mathlib.Data.List.AList
import TalonRPC.Machine.Run
import TalonRPC.TinyPB.Protocol

/-!
# Responses and their callbacks

A client registers a callback for the response with a message id. `excute` looks up the id of each
response it has decoded, calls the callback, and erases the entry when that returns. But an id that
is registered again while its entry is in the map, be it from inside the callback, is ignored by
`insert`: the second callback is never called.

## Main definitions

* `ReadDones`: `m_read_dones`, with the registrations and the calls of callbacks so far
* `ResponseEvent`, `responseStep`: a registration, a response, or the end of its callback
* `ResponsesReach`: each registration is answered by at most one response of its id, and is not lost
* `FreshId`: an id is registered while the map has no entry for it

## Main results

* `Filed.step`: every entry belongs to a registration of its id
* `responsesReach_iff`: all responses reach their callbacks exactly if all ids are fresh when they
  are registered
-/

namespace TalonRPC

open Machine

/-- `m_read_dones` of a client connection, with the ids registered so far, the call that is under
way, and the calls made, each with the number of its registration and the response. A callback is
known by the number of its registration. -/
structure ReadDones where
  readDones : AList fun _ : ByteString => ℕ := ∅
  running : Option ByteString := none
  registered : List ByteString := []
  invoked : List (ℕ × TinyPBProtocol) := []

/-- What happens to the callbacks: one is registered, from inside another one or not, `excute` comes
to a response, or the callback of a response returns. -/
inductive ResponseEvent
  | pushReadMessage (msgId : ByteString)
  | response (m : TinyPBProtocol)
  | returned
  deriving DecidableEq, Repr

namespace ReadDones

/-- `TcpConnection::pushReadMessage`. `insert` keeps an entry that is there. -/
def pushReadMessage (c : ReadDones) (msgId : ByteString) : ReadDones :=
  { c with
    readDones :=
      if msgId ∈ c.readDones then c.readDones else c.readDones.insert msgId c.registered.length
    registered := c.registered ++ [msgId] }

/-- `TcpConnection::excute` comes to a response: the callback of its id is called, if there is
one. -/
def response (c : ReadDones) (m : TinyPBProtocol) : ReadDones :=
  match c.readDones.lookup m.msgId with
  | some n => { c with running := some m.msgId, invoked := c.invoked ++ [(n, m)] }
  | none => c

/-- The callback has returned, and its entry is erased. -/
def returned (c : ReadDones) (msgId : ByteString) : ReadDones :=
  { c with readDones := c.readDones.erase msgId, running := none }

/-- The registration `n` is for the id, and has not been answered. -/
def Waiting (c : ReadDones) (msgId : ByteString) (n : ℕ) : Prop :=
  c.registered[n]? = some msgId ∧ n ∉ c.invoked.map (·.1)

end ReadDones

/-- The state after an event, if it can happen. `excute` comes to the next response when the
callback of the last one has returned. -/
def responseStep (c : ReadDones) : ResponseEvent → Option ReadDones
  | .pushReadMessage msgId => some (c.pushReadMessage msgId)
  | .response m =>
    match c.running with
    | none => some (c.response m)
    | some _ => none
  | .returned => c.running.map c.returned

/-- A response is given to one of the registrations that wait for its id; if there are none, it
changes nothing. -/
def Consumes (c : ReadDones) : ResponseEvent → Prop
  | .response m =>
    (∃ n, c.Waiting m.msgId n ∧ (c.response m).invoked = c.invoked ++ [(n, m)]) ∨
      (∀ n, ¬ c.Waiting m.msgId n) ∧ c.response m = c
  | _ => True

/-- **Responses reach their callbacks**: every callback is called at most once, and with a response
of its id; every response finds a registration that waits for it; and one that waits is in the
map. -/
structure ResponsesReach (es : List ResponseEvent) (c : ReadDones) : Prop where
  once : (c.invoked.map (·.1)).Nodup
  own : ∀ x ∈ c.invoked, c.registered[x.1]? = some x.2.msgId
  consumes : Along responseStep Consumes {} es
  kept : ∀ msgId n, c.Waiting msgId n → c.readDones.lookup msgId = some n

/-- An id is registered while the map has no entry for it. -/
def FreshId (c : ReadDones) : ResponseEvent → Prop
  | .pushReadMessage msgId => msgId ∉ c.readDones
  | _ => True

instance (c : ReadDones) (e : ResponseEvent) : Decidable (FreshId c e) :=
  match e with
  | .pushReadMessage msgId => inferInstanceAs (Decidable (msgId ∉ c.readDones))
  | .response _ | .returned => .isTrue trivial

/-- What every step keeps: an entry belongs to a registration of its id, which waits for a response
unless its callback is running; and the calls are those of the registrations, each once. -/
structure Filed (c : ReadDones) : Prop where
  entry : ∀ msgId n, c.readDones.lookup msgId = some n → c.registered[n]? = some msgId
  called : ∀ msgId n, c.readDones.lookup msgId = some n →
    (n ∈ c.invoked.map (·.1) ↔ c.running = some msgId)
  running : ∀ msgId, c.running = some msgId → msgId ∈ c.readDones
  once : (c.invoked.map (·.1)).Nodup
  own : ∀ x ∈ c.invoked, c.registered[x.1]? = some x.2.msgId

/-- A registration that waits for a response is in the map. -/
def AllKept (c : ReadDones) : Prop :=
  ∀ msgId n, c.Waiting msgId n → c.readDones.lookup msgId = some n

variable {c c' : ReadDones} {e : ResponseEvent} {es : List ResponseEvent} {msgId : ByteString}
  {n : ℕ} {m : TinyPBProtocol}

theorem Filed.init : Filed {} := by
  constructor <;> simp

theorem Filed.lt_of_invoked (h : Filed c) (hn : n ∈ c.invoked.map (·.1)) :
    n < c.registered.length := by
  obtain ⟨x, hx, rfl⟩ := List.mem_map.mp hn
  exact (List.getElem?_eq_some_iff.mp (h.own x hx)).1

theorem Filed.lt_of_lookup (h : Filed c) (hn : c.readDones.lookup msgId = some n) :
    n < c.registered.length :=
  (List.getElem?_eq_some_iff.mp (h.entry msgId n hn)).1

/-- An entry whose callback is not running waits for a response. -/
theorem Filed.waiting (h : Filed c) (hn : c.readDones.lookup msgId = some n)
    (hrun : c.running ≠ some msgId) : c.Waiting msgId n :=
  ⟨h.entry msgId n hn, fun hmem => hrun ((h.called msgId n hn).mp hmem)⟩

/-! ## Registering -/

theorem getElem?_registered_pushReadMessage (hn : n < c.registered.length) :
    (c.pushReadMessage msgId).registered[n]? = c.registered[n]? :=
  List.getElem?_append_left hn

theorem Filed.pushReadMessage (h : Filed c) (msgId : ByteString) :
    Filed (c.pushReadMessage msgId) := by
  have hkeep : ∀ (id : ByteString) (n : ℕ), c.registered[n]? = some id →
      (c.pushReadMessage msgId).registered[n]? = some id := by
    intro id n hn
    rw [getElem?_registered_pushReadMessage (List.getElem?_eq_some_iff.mp hn).1, hn]
  have hown : ∀ x ∈ c.invoked, (c.pushReadMessage msgId).registered[x.1]? = some x.2.msgId :=
    fun x hx => hkeep _ _ (h.own x hx)
  by_cases hmem : msgId ∈ c.readDones
  · have hmap : (c.pushReadMessage msgId).readDones = c.readDones := if_pos hmem
    refine ⟨fun id n hn => ?_, fun id n hn => ?_, fun id hid => ?_, h.once, hown⟩
    · exact hkeep id n (h.entry id n (hmap ▸ hn))
    · exact h.called id n (hmap ▸ hn)
    · rw [hmap]
      exact h.running id hid
  · have hmap : (c.pushReadMessage msgId).readDones =
        c.readDones.insert msgId c.registered.length := if_neg hmem
    refine ⟨fun id n hn => ?_, fun id n hn => ?_, fun id hid => ?_, h.once, hown⟩
    · rw [hmap] at hn
      by_cases hid : id = msgId
      · subst hid
        obtain rfl := Option.some.inj ((AList.lookup_insert _).symm.trans hn)
        simp [ReadDones.pushReadMessage]
      · rw [AList.lookup_insert_ne hid] at hn
        exact hkeep id n (h.entry id n hn)
    · rw [hmap] at hn
      by_cases hid : id = msgId
      · subst hid
        obtain rfl := Option.some.inj ((AList.lookup_insert _).symm.trans hn)
        -- The number is new, and the id had no entry before.
        refine iff_of_false (fun hcalled => ?_) fun hrun => hmem (h.running id hrun)
        exact lt_irrefl _ (h.lt_of_invoked hcalled)
      · rw [AList.lookup_insert_ne hid] at hn
        exact h.called id n hn
    · rw [hmap, AList.mem_insert]
      exact .inr (h.running id hid)

/-- A registration is kept if its id is fresh, and else it is lost. -/
theorem Filed.allKept_pushReadMessage_iff (h : Filed c) :
    AllKept (c.pushReadMessage msgId) ↔ AllKept c ∧ msgId ∉ c.readDones := by
  have hnew : (c.pushReadMessage msgId).Waiting msgId c.registered.length :=
    ⟨by simp [ReadDones.pushReadMessage], fun hmem => lt_irrefl _ (h.lt_of_invoked hmem)⟩
  have hold : ∀ id n, c.Waiting id n → (c.pushReadMessage msgId).Waiting id n := by
    rintro id n ⟨hid, hn⟩
    refine ⟨?_, hn⟩
    rw [getElem?_registered_pushReadMessage (List.getElem?_eq_some_iff.mp hid).1, hid]
  constructor
  · intro hall
    have hfresh : msgId ∉ c.readDones := by
      intro hmem
      have hlookup := hall _ _ hnew
      rw [ReadDones.pushReadMessage, if_pos hmem] at hlookup
      exact lt_irrefl _ (h.lt_of_lookup hlookup)
    refine ⟨fun id n hwait => ?_, hfresh⟩
    have hlookup := hall id n (hold id n hwait)
    rw [ReadDones.pushReadMessage, if_neg hfresh] at hlookup
    by_cases hid : id = msgId
    · subst hid
      obtain rfl := Option.some.inj ((AList.lookup_insert _).symm.trans hlookup)
      exact absurd (List.getElem?_eq_some_iff.mp hwait.1).1 (lt_irrefl _)
    · exact (AList.lookup_insert_ne hid).symm.trans hlookup
  · rintro ⟨hall, hfresh⟩ id n ⟨hid, hn⟩
    rw [ReadDones.pushReadMessage, if_neg hfresh]
    by_cases hlt : n < c.registered.length
    · rw [getElem?_registered_pushReadMessage hlt] at hid
      have hlookup := hall id n ⟨hid, hn⟩
      have hne : id ≠ msgId := by
        rintro rfl
        exact hfresh (AList.lookup_isSome.mp (by rw [hlookup]; rfl))
      exact (AList.lookup_insert_ne hne).trans hlookup
    · -- The registration that was just made.
      have heq : n = c.registered.length := by
        have := (List.getElem?_eq_some_iff.mp hid).1
        simp only [ReadDones.pushReadMessage, List.length_append, List.length_singleton] at this
        omega
      subst heq
      obtain rfl : msgId = id := by simpa [ReadDones.pushReadMessage] using hid
      exact AList.lookup_insert _

/-! ## Responses -/

theorem response_of_lookup (hn : c.readDones.lookup m.msgId = some n) :
    c.response m = { c with running := some m.msgId, invoked := c.invoked ++ [(n, m)] } := by
  rw [ReadDones.response, hn]

theorem response_of_not_mem (hm : m.msgId ∉ c.readDones) : c.response m = c := by
  rw [ReadDones.response, AList.lookup_eq_none.mpr hm]

theorem Filed.response (h : Filed c) (hrun : c.running = none) (m : TinyPBProtocol) :
    Filed (c.response m) := by
  by_cases hmem : m.msgId ∈ c.readDones
  · obtain ⟨n, hn⟩ := Option.isSome_iff_exists.mp (AList.lookup_isSome.mpr hmem)
    have hwait := h.waiting hn (by simp [hrun])
    rw [response_of_lookup hn]
    refine ⟨h.entry, fun id k hk => ?_, fun id hid => ?_, ?_, ?_⟩
    · have hcalled := h.called id k hk
      simp only [List.map_append, List.mem_append, List.map_singleton, List.mem_singleton,
        hcalled, hrun, Option.some.injEq, reduceCtorEq, false_or]
      constructor
      · rintro rfl
        exact Option.some.inj ((hwait.1.symm).trans (h.entry id k hk))
      · rintro rfl
        exact Option.some.inj (hk.symm.trans hn)
    · obtain rfl := Option.some.inj hid
      exact hmem
    · rw [List.map_append, List.map_singleton]
      exact List.Nodup.append h.once (by simp) (by simpa using hwait.2)
    · intro x hx
      rcases List.mem_append.mp hx with hx | hx
      · exact h.own x hx
      · obtain rfl := List.mem_singleton.mp hx
        exact hwait.1
  · rw [response_of_not_mem hmem]
    exact h

theorem Filed.allKept_response_iff (h : Filed c) (m : TinyPBProtocol) :
    AllKept (c.response m) ↔ AllKept c := by
  by_cases hmem : m.msgId ∈ c.readDones
  · obtain ⟨n, hn⟩ := Option.isSome_iff_exists.mp (AList.lookup_isSome.mpr hmem)
    rw [response_of_lookup hn]
    constructor
    · rintro hall id k ⟨hid, hk⟩
      by_cases hkn : k = n
      · -- The registration that has just been answered has an entry.
        subst hkn
        obtain rfl := Option.some.inj ((h.entry _ _ hn).symm.trans hid)
        exact hn
      · exact hall id k ⟨hid, by simpa [hkn] using hk⟩
    · rintro hall id k ⟨hid, hk⟩
      exact hall id k ⟨hid, fun hmem => hk (by
        rw [List.map_append]
        exact List.mem_append_left _ hmem)⟩
  · rw [response_of_not_mem hmem]

/-- If all registrations that wait are in the map, a response finds one of them. -/
theorem Filed.consumes (h : Filed c) (hkept : AllKept c) (hrun : c.running = none)
    (m : TinyPBProtocol) : Consumes c (.response m) := by
  by_cases hmem : m.msgId ∈ c.readDones
  · obtain ⟨n, hn⟩ := Option.isSome_iff_exists.mp (AList.lookup_isSome.mpr hmem)
    refine .inl ⟨n, h.waiting hn (by simp [hrun]), ?_⟩
    rw [response_of_lookup hn]
  · refine .inr ⟨fun n hwait => ?_, response_of_not_mem hmem⟩
    exact hmem (AList.lookup_isSome.mp (by rw [hkept _ n hwait]; rfl))

/-! ## The end of a callback -/

theorem lookup_returned_self : (c.returned msgId).readDones.lookup msgId = none :=
  AList.lookup_erase _ _

theorem lookup_returned_of_ne {id : ByteString} (h : id ≠ msgId) :
    (c.returned msgId).readDones.lookup id = c.readDones.lookup id :=
  AList.lookup_erase_ne h

theorem Filed.returned (h : Filed c) (hrun : c.running = some msgId) :
    Filed (c.returned msgId) := by
  refine ⟨fun id n hn => ?_, fun id n hn => ?_, nofun, h.once, h.own⟩
  · by_cases hid : id = msgId
    · cases lookup_returned_self.symm.trans (hid ▸ hn)
    · exact h.entry id n (lookup_returned_of_ne hid ▸ hn)
  · by_cases hid : id = msgId
    · cases lookup_returned_self.symm.trans (hid ▸ hn)
    · refine (h.called id n (lookup_returned_of_ne hid ▸ hn)).trans ?_
      simp [ReadDones.returned, hrun, Ne.symm hid]

theorem Filed.allKept_returned_iff (h : Filed c) (hrun : c.running = some msgId) :
    AllKept (c.returned msgId) ↔ AllKept c := by
  obtain ⟨k, hk⟩ := Option.isSome_iff_exists.mp (AList.lookup_isSome.mpr (h.running msgId hrun))
  have hcalled : k ∈ c.invoked.map (·.1) := (h.called msgId k hk).mpr hrun
  constructor
  · intro hall id n hwait
    have hn := hall id n hwait
    by_cases hid : id = msgId
    · cases lookup_returned_self.symm.trans (hid ▸ hn)
    · exact (lookup_returned_of_ne hid).symm.trans hn
  · intro hall id n hwait
    by_cases hid : id = msgId
    · -- The entry is that of the callback, which does not wait.
      subst hid
      obtain rfl := Option.some.inj (hk.symm.trans (hall id n hwait))
      exact absurd hcalled hwait.2
    · rw [lookup_returned_of_ne hid]
      exact hall id n hwait

/-! ## Runs -/

theorem Filed.step (h : Filed c) (hstep : responseStep c e = some c') : Filed c' := by
  cases e with
  | pushReadMessage msgId =>
    obtain rfl := Option.some.inj hstep
    exact h.pushReadMessage msgId
  | response m =>
    simp only [responseStep] at hstep
    split at hstep
    · rename_i hrun
      obtain rfl := Option.some.inj hstep
      exact h.response hrun m
    · cases hstep
  | returned =>
    obtain ⟨msgId, hrun, rfl⟩ := Option.map_eq_some_iff.mp hstep
    exact h.returned hrun

/-- A registration gets lost when its id is not fresh, and then for good. -/
theorem Filed.allKept_step_iff (h : Filed c) (hstep : responseStep c e = some c') :
    AllKept c' ↔ AllKept c ∧ FreshId c e := by
  cases e with
  | pushReadMessage msgId =>
    obtain rfl := Option.some.inj hstep
    exact h.allKept_pushReadMessage_iff
  | response m =>
    simp only [responseStep] at hstep
    split at hstep
    · obtain rfl := Option.some.inj hstep
      exact (h.allKept_response_iff m).trans (and_iff_left trivial).symm
    · cases hstep
  | returned =>
    obtain ⟨msgId, hrun, rfl⟩ := Option.map_eq_some_iff.mp hstep
    exact (h.allKept_returned_iff hrun).trans (and_iff_left trivial).symm

theorem Filed.consumes_step (h : Filed c) (hkept : AllKept c)
    (hstep : responseStep c e = some c') : Consumes c e := by
  cases e with
  | response m =>
    simp only [responseStep] at hstep
    split at hstep
    · rename_i hrun
      exact h.consumes hkept hrun m
    · cases hstep
  | pushReadMessage _ | returned => trivial

/-- **All responses reach their callbacks** exactly if every id is registered while the map has no
entry for it. -/
theorem responsesReach_iff (hexec : exec responseStep {} es = some c) :
    ResponsesReach es c ↔ Along responseStep FreshId {} es := by
  obtain ⟨hfiled, hkept, hconsumes⟩ : Filed c ∧
      (AllKept c ↔ Along responseStep FreshId {} es) ∧
      (AllKept c → Along responseStep Consumes {} es) := by
    refine exec_history (I := fun es c => Filed c ∧
      (AllKept c ↔ Along responseStep FreshId {} es) ∧
      (AllKept c → Along responseStep Consumes {} es)) ?_ ?_ hexec
    · exact ⟨.init, by simp [AllKept, ReadDones.Waiting, Along], fun _ => trivial⟩
    · rintro es c e c' hexec ⟨hI, hiff, hconsumes⟩ hstep
      refine ⟨hI.step hstep, ?_, fun hall => ?_⟩
      · rw [hI.allKept_step_iff hstep, hiff, along_snoc hexec]
      · obtain ⟨hkept, -⟩ := (hI.allKept_step_iff hstep).mp hall
        exact (along_snoc hexec).mpr ⟨hconsumes hkept, hI.consumes_step hkept hstep⟩
  rw [← hkept]
  exact ⟨fun h => h.kept, fun h => ⟨hfiled.once, hfiled.own, hconsumes h, h⟩⟩

/-- A message with the id `"a"`. -/
def responseA : TinyPBProtocol := { msgId := [0x61] }

/-- The id is registered again, from the callback of another response. -/
def registeredAgain : List ResponseEvent :=
  [.pushReadMessage [0x61], .pushReadMessage [0x62], .response responseA, .returned,
    .response { msgId := [0x62] }, .pushReadMessage [0x61], .returned, .response responseA,
    .returned]

theorem responsesReach_registeredAgain : ∃ c, exec responseStep {} registeredAgain = some c ∧
    ResponsesReach registeredAgain c := by
  have hrun : (exec responseStep {} registeredAgain).isSome := by decide
  obtain ⟨c, hc⟩ := Option.isSome_iff_exists.mp hrun
  exact ⟨c, hc, (responsesReach_iff hc).mpr (by decide)⟩

/-- The callback of the id registers it once more, while its entry is still in the map. The second
response finds no entry, although a registration waits for it. -/
theorem not_responsesReach_from_callback : ¬ ∀ (es : List ResponseEvent) (c : ReadDones),
    exec responseStep {} es = some c → ResponsesReach es c := by
  intro h
  let es : List ResponseEvent :=
    [.pushReadMessage [0x61], .response responseA, .pushReadMessage [0x61], .returned,
      .response responseA]
  obtain ⟨c, hc, hregistered, hinvoked, hmap⟩ : ∃ c, exec responseStep {} es = some c ∧
      c.registered = [[0x61], [0x61]] ∧ c.invoked = [(0, responseA)] ∧
      c.readDones.lookup [0x61] = none := ⟨_, rfl, rfl, rfl, rfl⟩
  have hkept := (h es c hc).kept [0x61] 1 ⟨by rw [hregistered]; rfl, by rw [hinvoked]; decide⟩
  rw [hmap] at hkept
  cases hkept

end TalonRPC
