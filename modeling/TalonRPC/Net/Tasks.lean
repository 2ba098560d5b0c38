import TalonRPC.Net.Runtime

/-!
# Tasks and the connections they capture

A loop watches a connection until the peer closes, and what it enqueues until then is run on a
connection that is still there, unless it has been destroyed in between. This is an invariant of
the runtime, and there are three kinds of steps that keep it: those that make a connection, those
that destroy one, and those that leave the connections as they are.

## Main definitions

* `Uses`: a connection is in use on a loop
* `Tidy`: the loops watch, and the queues capture, only connections that are in use
* `Retains`, `Makes`, `Drops`: steps that keep the connections, make one or destroy one

## Main results

* `Tidy.retain`, `Tidy.born`, `Tidy.drop`: these steps keep the runtime tidy
-/

namespace TalonRPC.Net

open Machine Epoll

variable {L C : Type} [DecidableEq L] [DecidableEq C]

omit [DecidableEq L] [DecidableEq C] in
/-- The connection is in use on the loop, with this number of its `Fd_Event`. -/
structure Uses (st : Runtime L C) (c : C) (l : L) (n : ℕ) : Prop where
  live : ∃ type fd, st.process.connections c = .live type fd n
  home : st.home c = some l

omit [DecidableEq L] [DecidableEq C] in
/-- The loop watches the descriptor. -/
def Runtime.Watches (st : Runtime L C) (l : L) (n : ℕ) : Prop :=
  (st.process.loops l).kernel.Registered n

omit [DecidableEq L] in
/-- **The runtime is tidy**: what a loop watches and what its queue captures are connections in use
on it, and a watched number has not gone to another connection. A connection that the server has
found closed is not watched; one that is still to be added is not watched yet, and nothing captures
it. -/
structure Tidy (st : Runtime L C) : Prop where
  owned : Owned st.process
  attached : Attached st.process
  queued : ∀ l f, .callback (some f) ∈ st.queue l → ∃ n, Uses st f.owner l n
  watched : ∀ l n, st.Watches l n → ∃ c, Uses st c l n ∧ st.process.owner n = some c
  closed : ∀ c fd n, st.process.connections c = .live .byServer fd n → st.state c = .closed →
    ∀ l, ¬ st.Watches l n
  adding : ∀ l n, .add n ∈ st.queue l → (∀ l', ¬ st.Watches l' n) ∧
    ∃ c fd, st.process.connections c = .live .byServer fd n ∧ Uses st c l n ∧
      st.state c ≠ .closed ∧ Spared st c
  once : ∀ l n, (st.queue l).count (.add n) ≤ 1

section Step

variable {st st' : Runtime L C} {c d : C} {l l' : L} {n n' : ℕ} {e : RuntimeEvent L C}

omit [DecidableEq L] [DecidableEq C] in
/-- A number has one connection of a server. -/
theorem Owned.eq_of_server {st : Process L C} (h : Owned st) {fd : Option ℕ}
    (hc : st.connections c = .live .byServer fd n) (hd : st.owner n = some d) : d = c :=
  Option.some.inj (hd.symm.trans (h.of_server hc).2)

omit [DecidableEq L] [DecidableEq C] in
/-- A captured connection is not spared. -/
theorem not_spared {f : Callback C} (h : .callback (some f) ∈ st.queue l) : ¬ Spared st f.owner :=
  fun hspared => hspared l _ h rfl

omit [DecidableEq L] [DecidableEq C] in
theorem spared_iff : Spared st c ↔ ∀ l f, .callback (some f) ∈ st.queue l → f.owner ≠ c := by
  constructor
  · rintro h l f hf rfl
    exact not_spared hf h
  · intro h l t ht hcaptured
    cases t with
    | add fd => cases hcaptured
    | callback f =>
      cases f with
      | none => cases hcaptured
      | some f => exact h l f ht (Option.some.inj hcaptured)

/-! ## Steps that keep the connections -/

omit [DecidableEq L] in
/-- The connections in use stay so. The queues capture in addition only the last that got a watched
number; a loop watches in addition only a connection that uses it, that is the last with its number,
and that the server has not found closed; and a connection becomes `Closed` in one of its own tasks,
which stops the watching. -/
structure Retains (st st' : Runtime L C) : Prop where
  live : ∀ c type n, (∃ fd, st'.process.connections c = .live type fd n) ↔
    ∃ fd, st.process.connections c = .live type fd n
  home : st'.home = st.home
  queue : ∀ l f, .callback (some f) ∈ st'.queue l → .callback (some f) ∈ st.queue l ∨
    ∃ n, st.Watches l n ∧ st.process.owner n = some f.owner
  count : ∀ l n, (st'.queue l).count (.add n) ≤ (st.queue l).count (.add n)
  watch : ∀ l n, st'.Watches l n →
    (st.Watches l n ∧ st'.process.owner n = st.process.owner n) ∨
      ∃ c, (Uses st' c l n ∧ st'.process.owner n = some c) ∧
        ((∃ fd, st.process.connections c = .live .byServer fd n) →
          st'.state c ≠ .closed ∧ ∀ l', .add n ∉ st'.queue l')
  state : ∀ c, st'.state c = .closed → st.state c = .closed ∨
    ¬ Spared st c ∧ ∀ l n, Uses st c l n → ¬ st'.Watches l n

section Retain

variable (hretains : Retains st st')
include hretains

omit [DecidableEq L] in
theorem Retains.uses (h : Uses st c l n) : Uses st' c l n := by
  obtain ⟨type, fd, hc⟩ := h.live
  obtain ⟨fd', hc'⟩ := (hretains.live c type n).mpr ⟨fd, hc⟩
  exact ⟨⟨type, fd', hc'⟩, hretains.home ▸ h.home⟩

omit [DecidableEq L] in
theorem Retains.watched (h : Tidy st) (hn : st'.Watches l n) :
    ∃ c, Uses st' c l n ∧ st'.process.owner n = some c := by
  rcases hretains.watch l n hn with ⟨hold, howner⟩ | ⟨c, hc, -⟩
  · obtain ⟨c, hc, hown⟩ := h.watched l n hold
    exact ⟨c, hretains.uses hc, howner.trans hown⟩
  · exact ⟨c, hc⟩

omit [DecidableEq L] in
theorem Retains.queued (h : Tidy st) {f : Callback C} (hf : .callback (some f) ∈ st'.queue l) :
    ∃ n, Uses st' f.owner l n := by
  rcases hretains.queue l f hf with hold | ⟨n, hn, howner⟩
  · obtain ⟨n, hn⟩ := h.queued l f hold
    exact ⟨n, hretains.uses hn⟩
  · -- The last that got a watched number is the connection that uses it.
    obtain ⟨c, hc, hown⟩ := h.watched l n hn
    obtain rfl := Option.some.inj (hown.symm.trans howner)
    exact ⟨n, hretains.uses hc⟩

omit [DecidableEq L] in
/-- What is watched of a server's connection has been watched before, or the connection is open and
no longer to be added. -/
theorem Retains.watches_before (howned : Owned st'.process) {fd : Option ℕ}
    (hc : st.process.connections c = .live .byServer fd n) (hn : st'.Watches l n) :
    st.Watches l n ∨ st'.state c ≠ .closed ∧ ∀ l', .add n ∉ st'.queue l' := by
  rcases hretains.watch l n hn with ⟨hold, -⟩ | ⟨d, ⟨-, howner⟩, hserver⟩
  · exact .inl hold
  · obtain ⟨fd', hc'⟩ := (hretains.live c .byServer n).mpr ⟨fd, hc⟩
    obtain rfl := howned.eq_of_server hc' howner
    exact .inr (hserver ⟨fd, hc⟩)

omit [DecidableEq L] in
theorem Retains.closed (h : Tidy st) (howned : Owned st'.process) {fd : Option ℕ}
    (hc : st'.process.connections c = .live .byServer fd n) (hclosed : st'.state c = .closed) :
    ¬ st'.Watches l n := by
  intro hn
  obtain ⟨fd', hc'⟩ := (hretains.live c .byServer n).mp ⟨fd, hc⟩
  have hbefore := (hretains.watches_before howned hc' hn).resolve_right fun hopen =>
    hopen.1 hclosed
  rcases hretains.state c hclosed with hold | ⟨-, hquiet⟩
  · exact h.closed c fd' n hc' hold l hbefore
  · obtain ⟨b, hb, howner⟩ := h.watched l n hbefore
    obtain rfl := h.owned.eq_of_server hc' howner
    exact hquiet l n hb hn

omit [DecidableEq L] in
/-- What no loop watches is not captured anew. -/
theorem Retains.spared (h : Tidy st) {fd : Option ℕ}
    (hc : st.process.connections c = .live .byServer fd n) (hquiet : ∀ l, ¬ st.Watches l n)
    (hspared : Spared st c) : Spared st' c := by
  rw [spared_iff]
  rintro l f hf rfl
  rcases hretains.queue l f hf with hold | ⟨m, hm, howner⟩
  · exact not_spared hold hspared
  · -- The watched number is that of the open descriptor which the connection got last.
    have hopen : m ∈ st.process.opened := by
      by_contra hclosed
      exact h.attached.not_registered hclosed hm
    have hfd := (h.owned.held _ _ _ _ hc m).mpr ⟨hopen, howner⟩
    obtain rfl := Option.some.inj (hfd.symm.trans (h.owned.server _ _ _ hc))
    exact hquiet l hm

omit [DecidableEq L] in
theorem Retains.adding (h : Tidy st) (howned : Owned st'.process) (hadd : .add n ∈ st'.queue l) :
    (∀ l', ¬ st'.Watches l' n) ∧
      ∃ c fd, st'.process.connections c = .live .byServer fd n ∧ Uses st' c l n ∧
        st'.state c ≠ .closed ∧ Spared st' c := by
  have hbefore : .add n ∈ st.queue l :=
    List.count_pos_iff.mp ((List.count_pos_iff.mpr hadd).trans_le (hretains.count l n))
  obtain ⟨hquiet, c, fd, hc, huses, hopen, hspared⟩ := h.adding l n hbefore
  constructor
  · intro l' hn
    rcases hretains.watches_before howned hc hn with hold | ⟨-, hnot⟩
    · exact hquiet l' hold
    · exact hnot l hadd
  · obtain ⟨fd', hc'⟩ := (hretains.live c .byServer n).mpr ⟨fd, hc⟩
    refine ⟨c, fd', hc', hretains.uses huses, fun hclosed => ?_,
      hretains.spared h hc hquiet hspared⟩
    rcases hretains.state c hclosed with hold | ⟨hcaptured, -⟩
    · exact hopen hold
    · exact hcaptured hspared

end Retain

omit [DecidableEq L] in
/-- **A step that keeps the connections keeps the runtime tidy.** -/
theorem Tidy.retain (h : Tidy st) (howned : Owned st'.process) (hattached : Attached st'.process)
    (hretains : Retains st st') : Tidy st' where
  owned := howned
  attached := hattached
  queued _ _ hf := hretains.queued h hf
  watched _ _ hn := hretains.watched h hn
  closed _ _ _ hc hclosed _ := hretains.closed h howned hc hclosed
  adding _ _ hadd := hretains.adding h howned hadd
  once l n := (hretains.count l n).trans (h.once l n)

/-! ## Steps that make a connection -/

/-- A connection is made, with a free number. A server listens with it and asks the loop to add
it. -/
structure Makes (st st' : Runtime L C) (c : C) (l : L) (type : TcpConnectionType) (n : ℕ)
    (tasks : List (Queued C)) : Prop where
  unborn : st.process.connections c = .unborn
  closed : n ∉ st.process.opened
  connections : st'.process.connections =
    Function.update st.process.connections c (.live type (some n) n)
  owner : st'.process.owner = Function.update st.process.owner n (some c)
  home : st'.home = Function.update st.home c (some l)
  state : st'.state = Function.update st.state c .notConnected
  watch : ∀ l n, st'.Watches l n → st.Watches l n
  queue : st'.queue = Function.update st.queue l (st.queue l ++ tasks)
  tasks : tasks = [] ∨ tasks = [.add n] ∧ type = .byServer

section Make

variable {type type' : TcpConnectionType} {tasks : List (Queued C)} {fd : Option ℕ} {m : ℕ}
  (hmakes : Makes st st' c l type n tasks)
include hmakes

theorem Makes.ne_of_live (hd : st.process.connections d = .live type' fd m) : d ≠ c := by
  rintro rfl
  cases hmakes.unborn.symm.trans hd

/-- The other connections of servers have other numbers. -/
theorem Makes.ne_of_server (h : Owned st.process)
    (hd : st.process.connections d = .live .byServer fd m) : m ≠ n := by
  rintro rfl
  exact hmakes.closed (h.of_server hd).1

theorem Makes.connections_of_ne (hd : d ≠ c) :
    st'.process.connections d = st.process.connections d :=
  hmakes.connections ▸ Function.update_of_ne hd ..

theorem Makes.connections_self : st'.process.connections c = .live type (some n) n :=
  hmakes.connections ▸ Function.update_self ..

/-- A connection in use is the new one or one from before. -/
theorem Makes.live (hd : st'.process.connections d = .live type' fd m) :
    d = c ∨ st.process.connections d = .live type' fd m := by
  by_cases hdc : d = c
  · exact .inl hdc
  · exact .inr (hmakes.connections_of_ne hdc ▸ hd)

theorem Makes.uses (huses : Uses st d l' m) : Uses st' d l' m := by
  obtain ⟨type', fd, hd⟩ := huses.live
  have hdc := hmakes.ne_of_live hd
  refine ⟨⟨type', fd, hmakes.connections_of_ne hdc ▸ hd⟩, ?_⟩
  rw [hmakes.home, Function.update_of_ne hdc]
  exact huses.home

/-- A task is one of the new ones or one from before. -/
theorem Makes.mem_queue {t : Queued C} (ht : t ∈ st'.queue l') :
    (l' = l ∧ t ∈ tasks) ∨ t ∈ st.queue l' := by
  rw [hmakes.queue] at ht
  by_cases hl : l' = l
  · subst hl
    rw [Function.update_self] at ht
    exact (List.mem_append.mp ht).symm.imp_left fun hnew => ⟨rfl, hnew⟩
  · rw [Function.update_of_ne hl] at ht
    exact .inr ht

/-- The new tasks capture nothing. -/
theorem Makes.callback {f : Callback C} (hf : .callback (some f) ∈ st'.queue l') :
    .callback (some f) ∈ st.queue l' := by
  refine (hmakes.mem_queue hf).resolve_left ?_
  rintro ⟨-, hnew⟩
  rcases hmakes.tasks with rfl | ⟨rfl, -⟩
  · cases hnew
  · cases List.mem_singleton.mp hnew

theorem Makes.spared (hd : Spared st d) : Spared st' d := by
  rw [spared_iff]
  rintro l' f hf rfl
  exact not_spared (hmakes.callback hf) hd

theorem Makes.spared_self (h : Tidy st) : Spared st' c := by
  rw [spared_iff]
  rintro l' f hf rfl
  obtain ⟨m, huses⟩ := h.queued l' f (hmakes.callback hf)
  obtain ⟨_, _, hlive⟩ := huses.live
  cases hmakes.unborn.symm.trans hlive

/-- The new number was not to be added before. -/
theorem Makes.notMem_queue (h : Tidy st) : .add n ∉ st.queue l' := by
  intro hadd
  obtain ⟨-, d, fd, hd, -⟩ := h.adding l' n hadd
  exact hmakes.ne_of_server h.owned hd rfl

theorem Makes.adding (h : Tidy st) (hadd : .add m ∈ st'.queue l') :
    (∀ l'', ¬ st'.Watches l'' m) ∧
      ∃ d fd, st'.process.connections d = .live .byServer fd m ∧ Uses st' d l' m ∧
        st'.state d ≠ .closed ∧ Spared st' d := by
  rcases hmakes.mem_queue hadd with ⟨rfl, hnew⟩ | hbefore
  · obtain rfl | ⟨rfl, rfl⟩ := hmakes.tasks
    · cases hnew
    cases List.mem_singleton.mp hnew
    refine ⟨fun l'' hn => h.attached.not_registered hmakes.closed (hmakes.watch l'' n hn),
      c, _, hmakes.connections_self, ⟨⟨_, _, hmakes.connections_self⟩, ?_⟩, ?_,
      hmakes.spared_self h⟩
    · rw [hmakes.home, Function.update_self]
    · rw [hmakes.state, Function.update_self]
      exact TcpState.noConfusion
  · obtain ⟨hquiet, d, fd, hd, huses, hopen, hspared⟩ := h.adding l' m hbefore
    have hdc := hmakes.ne_of_live hd
    refine ⟨fun l'' hm => hquiet l'' (hmakes.watch l'' m hm), d, fd,
      hmakes.connections_of_ne hdc ▸ hd, hmakes.uses huses, ?_, hmakes.spared hspared⟩
    rw [hmakes.state, Function.update_of_ne hdc]
    exact hopen

theorem Makes.once (h : Tidy st) : (st'.queue l').count (.add m) ≤ 1 := by
  rw [hmakes.queue]
  by_cases hl : l' = l
  · subst hl
    rw [Function.update_self, List.count_append]
    rcases hmakes.tasks with rfl | ⟨rfl, -⟩
    · exact h.once l' m
    · by_cases hm : m = n
      · subst hm
        rw [List.count_eq_zero_of_not_mem (hmakes.notMem_queue h), List.count_singleton_self]
      · have hne : (Queued.add n : Queued C) ≠ .add m := fun heq => hm (Queued.add.inj heq).symm
        rw [List.count_singleton, if_neg (by simpa using hne)]
        exact h.once l' m
  · rw [Function.update_of_ne hl]
    exact h.once l' m

end Make

/-- **A step that makes a connection keeps the runtime tidy.** -/
theorem Tidy.born {type : TcpConnectionType} {tasks : List (Queued C)} (h : Tidy st)
    (howned : Owned st'.process) (hattached : Attached st'.process)
    (hmakes : Makes st st' c l type n tasks) : Tidy st' where
  owned := howned
  attached := hattached
  queued l' f hf := by
    obtain ⟨m, hm⟩ := h.queued l' f (hmakes.callback hf)
    exact ⟨m, hmakes.uses hm⟩
  watched l' m hm := by
    have hbefore := hmakes.watch l' m hm
    obtain ⟨d, hd, howner⟩ := h.watched l' m hbefore
    refine ⟨d, hmakes.uses hd, ?_⟩
    -- No loop watches the new number yet.
    have hmn : m ≠ n := by
      rintro rfl
      exact h.attached.not_registered hmakes.closed hbefore
    rw [hmakes.owner, Function.update_of_ne hmn]
    exact howner
  closed d fd m hd hclosed l' hm := by
    rw [hmakes.state] at hclosed
    rcases hmakes.live hd with rfl | hold
    · rw [Function.update_self] at hclosed
      cases hclosed
    · rw [Function.update_of_ne (hmakes.ne_of_live hold)] at hclosed
      exact h.closed d fd m hold hclosed l' (hmakes.watch l' m hm)
  adding _ _ hadd := hmakes.adding h hadd
  once _ _ := hmakes.once h

/-! ## Steps that destroy a connection -/

omit [DecidableEq L] in
/-- A connection is destroyed that nothing captures. No loop watches a number that it is the last
with, and a server has found it closed. -/
structure Drops (st st' : Runtime L C) (c : C) : Prop where
  spared : Spared st c
  connections : st'.process.connections = Function.update st.process.connections c .ended
  owner : st'.process.owner = st.process.owner
  home : st'.home = st.home
  state : st'.state = st.state
  queue : st'.queue = st.queue
  watch : ∀ l n, st'.Watches l n → st.Watches l n
  quiet : ∀ l n, Uses st c l n → st.process.owner n = some c → ¬ st'.Watches l n
  idle : ∀ fd n, st.process.connections c = .live .byServer fd n → st.state c = .closed

section Drop

variable {type : TcpConnectionType} {fd : Option ℕ} {m : ℕ} (hdrops : Drops st st' c)
include hdrops

omit [DecidableEq L] in
/-- The connections in use have been in use before. -/
theorem Drops.live_before (hd : st'.process.connections d = .live type fd m) :
    st.process.connections d = .live type fd m := by
  by_cases hdc : d = c
  · subst hdc
    rw [hdrops.connections, Function.update_self] at hd
    cases hd
  · rwa [hdrops.connections, Function.update_of_ne hdc] at hd

omit [DecidableEq L] in
theorem Drops.connections_of_ne (hdc : d ≠ c) :
    st'.process.connections d = st.process.connections d :=
  hdrops.connections ▸ Function.update_of_ne hdc ..

omit [DecidableEq L] in
theorem Drops.uses (hdc : d ≠ c) (h : Uses st d l m) : Uses st' d l m := by
  obtain ⟨type, fd, hd⟩ := h.live
  exact ⟨⟨type, fd, hdrops.connections_of_ne hdc ▸ hd⟩, hdrops.home ▸ h.home⟩

end Drop

omit [DecidableEq L] in
/-- **A step that destroys a connection keeps the runtime tidy.** -/
theorem Tidy.drop (h : Tidy st) (howned : Owned st'.process) (hattached : Attached st'.process)
    (hdrops : Drops st st' c) : Tidy st' where
  owned := howned
  attached := hattached
  queued l f hf := by
    rw [hdrops.queue] at hf
    obtain ⟨m, hm⟩ := h.queued l f hf
    exact ⟨m, hdrops.uses (spared_iff.mp hdrops.spared l f hf) hm⟩
  watched l m hm := by
    obtain ⟨d, hd, howner⟩ := h.watched l m (hdrops.watch l m hm)
    have hdc : d ≠ c := by
      rintro rfl
      exact hdrops.quiet l m hd howner hm
    exact ⟨d, hdrops.uses hdc hd, hdrops.owner ▸ howner⟩
  closed d fd m hd hclosed l hm :=
    h.closed d fd m (hdrops.live_before hd) (hdrops.state ▸ hclosed) l (hdrops.watch l m hm)
  adding l m hmem := by
    rw [hdrops.queue] at hmem
    obtain ⟨hquiet, d, fd, hd, huses, hopen, hspared⟩ := h.adding l m hmem
    have hdc : d ≠ c := by
      rintro rfl
      exact hopen (hdrops.idle fd m hd)
    exact ⟨fun l' hm => hquiet l' (hdrops.watch l' m hm), d, fd, hdrops.connections_of_ne hdc ▸ hd,
      hdrops.uses hdc huses, hdrops.state ▸ hopen, fun l' => hdrops.queue ▸ hspared l'⟩
  once l m := hdrops.queue ▸ h.once l m

end Step

end TalonRPC.Net
