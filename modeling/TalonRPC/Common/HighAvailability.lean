import TalonRPC.Machine.Run
import TalonRPC.Tcp.Decimal

/-!
# High availability

`HighAvai::start` runs the server in a child process and waits for it to end. Then the process
executes the program anew, with the number of the next start as its argument, so that a chain of
programs in one process restarts the server again and again. The number travels from one program to
the next as a text: `sprintf` writes it into ten bytes, and `atoi` reads it back.

A start whose number is above the restart count ends the chain. The test is made only where there is
an argument, and so the very first start, which has none, is not counted: the server is started once
more often than it may be restarted, and once even where the restart count is negative.

## Main definitions

* `HighAvai`: the process, with its argument, its child processes and the starts it has made
* `HighAvaiEvent`, `highAvaiStep`: what happens to the process and its child
* `HighAvai.launches`: how often the server is started if nothing gets in the way

## Main results

* `restart_isSome_iff`: which numbers the ten bytes hold
* `Chained.step`: what every step keeps of the chain
* `started_in_chain`: the starts of every chain, and the servers alive
-/

namespace TalonRPC

open Machine

/-- Where the process is: at the call of `start`, behind the fork, before or after `handle_sigint`
is installed, or gone, with its exit status if it has exited. -/
inductive HighAvaiPoint
  | entered
  | forked (handled : Bool)
  | gone (status : Option ℤ)
  deriving DecidableEq, Repr

/-- `HighAvai` with its process: `restart_count_`, `argv[1]`, `current_start_count`, and the numbers
of the child processes that are alive and of all that have been started. -/
structure HighAvai where
  restartCount : ℤ
  argument : Option ByteString
  currentStartCount : ℤ := 0
  point : HighAvaiPoint := .entered
  children : List ℤ := []
  started : List ℤ := []
  deriving DecidableEq, Repr

/-- What happens: `start` forks, or fails to; `handle_sigint` is installed; a child ends; the wait
for it returns, and the program is executed anew, or cannot be; or the process gets a `SIGINT`. -/
inductive HighAvaiEvent
  | start (forked : Bool)
  | handle
  | childEnds (count : ℤ)
  | restart (executed : Bool)
  | sigint
  deriving DecidableEq, Repr

/-- The value of `current_start_count` after the first lines of `HighAvai::start`. -/
def HighAvai.count (st : HighAvai) : ℤ :=
  match st.argument with
  | some argument => atoi argument
  | none => st.currentStartCount

/-- The state after an event, if it can happen. There is none if `sprintf` writes past the end of
`str_restart_count`. -/
def highAvaiStep (st : HighAvai) (e : HighAvaiEvent) : Option HighAvai :=
  match e, st.point with
  | .start forked, .entered =>
    if st.argument.isSome ∧ st.count > st.restartCount then
      some { st with currentStartCount := st.count, point := .gone (some 2) }
    else if forked then
      some { st with
        currentStartCount := st.count
        point := .forked false
        children := st.count :: st.children
        started := st.started ++ [st.count] }
    else some { st with currentStartCount := st.count, point := .gone (some 255) }
  | .handle, .forked false => some { st with point := .forked true }
  | .childEnds count, _ =>
    if count ∈ st.children then some { st with children := st.children.erase count } else none
  | .restart executed, .forked true =>
    if st.currentStartCount ∈ st.children then none
    else if 10 < (toDecimal (st.currentStartCount + 1)).length + 1 then none
    else if executed then
      some { st with
        argument := some (toDecimal (st.currentStartCount + 1))
        currentStartCount := 0
        point := .entered }
    else some { st with point := .gone (some 1) }
  -- `handle_sigint` kills the child; without it only the process itself ends.
  | .sigint, .forked true =>
    some { st with children := st.children.erase st.currentStartCount, point := .gone (some 0) }
  | .sigint, .forked false | .sigint, .entered => some { st with point := .gone none }
  | _, _ => none

namespace HighAvai

/-- The first program of a chain. -/
def new (restartCount : ℤ) (argument : Option ByteString) : HighAvai := { restartCount, argument }

/-- The number of the first start of a chain. -/
def firstCount : Option ByteString → ℤ
  | none => 0
  | some argument => atoi argument

/-- How often a chain starts the server if it is not cut short. The first start is not counted if
there is no argument. -/
def launches (restartCount : ℤ) : Option ByteString → ℕ
  | none => max 1 (restartCount + 1).toNat
  | some argument => (restartCount + 1 - firstCount (some argument)).toNat

end HighAvai

variable {st st' : HighAvai} {e : HighAvaiEvent} {limit : ℤ} {argument : Option ByteString}

/-- **The ten bytes hold the numbers of nine characters**: once the child is gone, the program can
be executed anew for just these. -/
theorem restart_isSome_iff (hpoint : st.point = .forked true)
    (hchild : st.currentStartCount ∉ st.children) (executed : Bool) :
    (highAvaiStep st (.restart executed)).isSome ↔
      -10 ^ 8 < st.currentStartCount + 1 ∧ st.currentStartCount + 1 < 10 ^ 9 := by
  rw [← length_toDecimal_le_iff]
  simp only [highAvaiStep, hpoint, if_neg hchild]
  split_ifs with hlength hexecuted
  · exact iff_of_false nofun (by omega)
  · exact iff_of_true rfl (by omega)
  · exact iff_of_true rfl (by omega)

/-- **The chain**: the process has started the server with the numbers from the first one on, at
most as often as it is to; a program that is entered has the next number; and at most one child is
alive, the last one. -/
structure Chained (limit : ℤ) (argument : Option ByteString) (st : HighAvai) : Prop where
  restartCount : st.restartCount = limit
  started : st.started =
    (List.range st.started.length).map fun k => HighAvai.firstCount argument + (k : ℕ)
  launches : st.started.length ≤ HighAvai.launches limit argument
  entered : st.point = .entered → st.children = [] ∧
    st.count = HighAvai.firstCount argument + st.started.length ∧
      (st.argument = none ↔ argument = none ∧ st.started = [])
  forked : ∀ handled, st.point = .forked handled →
    st.currentStartCount + 1 = HighAvai.firstCount argument + st.started.length ∧
      (st.children = [] ∨ st.children = [st.currentStartCount]) ∧ st.started ≠ []
  gone : st.point = .gone (some 2) → st.started.length = HighAvai.launches limit argument
  children : st.children.length ≤ 1

/-- The number of a start is the next one, and whether it is too high is tested but for the very
first one. -/
theorem Chained.launches_of_entered (h : Chained limit argument st) (hpoint : st.point = .entered) :
    (st.argument.isSome ∧ st.count > st.restartCount →
        st.started.length = HighAvai.launches limit argument) ∧
      (¬ (st.argument.isSome ∧ st.count > st.restartCount) →
        st.started.length + 1 ≤ HighAvai.launches limit argument) := by
  obtain ⟨-, hcount, hnone⟩ := h.entered hpoint
  have hle := h.launches
  rw [h.restartCount, hcount]
  cases argument with
  | none =>
    simp only [HighAvai.firstCount, HighAvai.launches] at hle ⊢
    cases hst : st.argument with
    | none =>
      have hempty := (hnone.mp hst).2
      simp [hempty]
    | some a =>
      have hne : st.started ≠ [] := fun hempty => nomatch hst.symm.trans (hnone.mpr ⟨rfl, hempty⟩)
      have hpos := List.length_pos_of_ne_nil hne
      simp only [Option.isSome_some, true_and]
      omega
  | some a =>
    have hst : st.argument.isSome := by
      by_contra hst
      exact nomatch (hnone.mp (by simpa using hst)).1
    simp only [HighAvai.launches, hst, true_and] at hle ⊢
    omega

theorem Chained.step (h : Chained limit argument st) (hstep : highAvaiStep st e = some st') :
    Chained limit argument st' := by
  unfold highAvaiStep at hstep
  split at hstep
  case h_1 forked hpoint =>
    obtain ⟨hchildren, hcount, -⟩ := h.entered hpoint
    obtain ⟨hlast, hmore⟩ := h.launches_of_entered hpoint
    split_ifs at hstep with hlimit hforked
    · obtain rfl := Option.some.inj hstep
      exact ⟨h.restartCount, h.started, h.launches, nofun, nofun, fun _ => hlast hlimit, h.children⟩
    · obtain rfl := Option.some.inj hstep
      refine ⟨h.restartCount, ?_, ?_, nofun, fun _ _ => ⟨?_, ?_, ?_⟩, nofun, ?_⟩
      · dsimp only
        rw [List.length_append, List.length_singleton, List.range_succ, List.map_append,
          ← h.started, hcount]
        rfl
      · dsimp only
        rw [List.length_append, List.length_singleton]
        exact hmore hlimit
      · dsimp only
        rw [List.length_append, List.length_singleton, hcount]
        push_cast
        ring
      · dsimp only
        rw [hchildren]
        exact .inr rfl
      · simp
      · dsimp only
        rw [hchildren]
        exact le_rfl
    · obtain rfl := Option.some.inj hstep
      exact ⟨h.restartCount, h.started, h.launches, nofun, nofun, nofun, h.children⟩
  case h_2 hpoint =>
    obtain rfl := Option.some.inj hstep
    exact ⟨h.restartCount, h.started, h.launches, nofun, fun _ _ => h.forked _ hpoint, nofun,
      h.children⟩
  case h_3 count =>
    split_ifs at hstep with hmem
    obtain rfl := Option.some.inj hstep
    -- There is no other child than this one.
    have hchild : st.children = [count] := by
      obtain ⟨c, hc⟩ :=
        List.length_eq_one_iff.mp (h.children.antisymm (List.length_pos_of_mem hmem))
      rw [hc] at hmem ⊢
      rw [List.mem_singleton.mp hmem]
    have hempty : st.children.erase count = [] := by
      rw [hchild]
      exact List.erase_cons_head ..
    refine ⟨h.restartCount, h.started, h.launches, fun hpoint => ?_, fun handled hpoint => ?_,
      h.gone, ?_⟩
    · rw [(h.entered hpoint).1] at hmem
      cases hmem
    · exact ⟨(h.forked handled hpoint).1, .inl hempty, (h.forked handled hpoint).2.2⟩
    · change (st.children.erase count).length ≤ 1
      rw [hempty]
      exact Nat.zero_le 1
  case h_4 executed hpoint =>
    obtain ⟨hcount, hchildren, hstarted⟩ := h.forked true hpoint
    split_ifs at hstep with hchild hlength hexecuted
    · obtain rfl := Option.some.inj hstep
      have hfits := length_toDecimal_le_iff.mp (Nat.le_of_succ_le_succ (not_lt.mp hlength))
      refine ⟨h.restartCount, h.started, h.launches, fun _ => ⟨?_, ?_, ?_⟩, nofun, nofun,
        h.children⟩
      · exact hchildren.resolve_right fun hone => hchild (by simp [hone])
      · -- The number is read as it has been written.
        change atoi (toDecimal _) = _
        rw [atoi_toDecimal (by omega) (by omega)]
        exact hcount
      · exact iff_of_false nofun fun hnone => hstarted hnone.2
    · obtain rfl := Option.some.inj hstep
      exact ⟨h.restartCount, h.started, h.launches, nofun, nofun, nofun, h.children⟩
  case h_5 hpoint =>
    obtain rfl := Option.some.inj hstep
    refine ⟨h.restartCount, h.started, h.launches, nofun, nofun, nofun, ?_⟩
    exact (List.length_erase_le ..).trans h.children
  case h_6 | h_7 =>
    obtain rfl := Option.some.inj hstep
    exact ⟨h.restartCount, h.started, h.launches, nofun, nofun, nofun, h.children⟩
  case h_8 => cases hstep

theorem chained_new (limit : ℤ) (argument : Option ByteString) :
    Chained limit argument (.new limit argument) where
  restartCount := rfl
  started := rfl
  launches := Nat.zero_le _
  entered _ := by
    refine ⟨rfl, ?_, ?_⟩
    · cases argument <;> exact (Int.add_zero _).symm
    · exact (and_iff_left rfl).symm
  forked := nofun
  gone := nofun
  children := Nat.zero_le 1

/-- **The starts of a chain**, whatever happens to its programs: at most one server is alive at a
time; the server is started with the numbers from that of the argument on, one after the other; it
is started at most `launches` times; and just as often if the chain ends because of its number. -/
theorem started_in_chain (limit : ℤ) (argument : Option ByteString) (es : List HighAvaiEvent)
    (h : exec highAvaiStep (.new limit argument) es = some st) :
    st.children.length ≤ 1 ∧
      st.started = (List.range st.started.length).map
        (fun k => HighAvai.firstCount argument + (k : ℕ)) ∧
      st.started.length ≤ HighAvai.launches limit argument ∧
      (st.point = .gone (some 2) → st.started.length = HighAvai.launches limit argument) := by
  have hchained : Chained limit argument st :=
    exec_invariant (fun _ _ _ h hstep => h.step hstep) (chained_new limit argument) h
  exact ⟨hchained.children, hchained.started, hchained.launches, hchained.gone⟩

/-- With one restart, and no argument, the server is started twice. -/
theorem started_in_chain_twice :
    let es : List HighAvaiEvent := [.start true, .handle, .childEnds 0, .restart true, .start true,
      .handle, .childEnds 1, .restart true, .start true]
    ∃ st, exec highAvaiStep (.new 1 none) es = some st ∧ st.point = .gone (some 2) ∧
      st.started.length = 2 := by
  intro es
  exact ⟨_, rfl, rfl, (started_in_chain 1 none es rfl).2.2.2 rfl⟩

end TalonRPC
