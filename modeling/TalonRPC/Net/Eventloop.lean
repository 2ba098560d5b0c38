import TalonRPC.Machine.Run
import TalonRPC.Net.Epoll

/-!
# Eventloop

An event loop keeps its own set of the descriptors it has registered, and chooses between adding
and changing by it. The set is updated whether or not the call succeeds, and nobody tells the loop
that a descriptor is closed. A client that is destroyed closes its descriptor without deleting it;
the next socket with the same number is then taken for a registered one, and never watched.

## Main definitions

* `Eventloop`, `addEpollEvent`, `deleteEpollEvent`: the set of the loop beside the kernel's
* `LoopEvent`, `loopStep`: what happens on the thread of the loop
* `InStep`: the set of the loop is the kernel's, and the last call has done what it should

## Main results

* `inStep_step_iff`: a step keeps the sets in step exactly if it is regular
* `inStep_iff`: a run does exactly if all its steps are regular
-/

namespace TalonRPC

open Machine Epoll

/-- The bits of `epoll_event::events` that an `Fd_Event` sets. -/
structure EventMask where
  inEvent : Bool := false
  outEvent : Bool := false
  deriving DecidableEq, Repr

/-- `Eventloop`: the kernel's side of its epoll instance, and `m_listen_fds`. -/
structure Eventloop where
  kernel : Kernel EventMask
  listenFds : Finset ℕ := ∅

namespace Eventloop

/-- `Eventloop::addEpollEvent` on the thread of the loop, with the descriptor and the mask of the
event. -/
def addEpollEvent (l : Eventloop) (fd : ℕ) (mask : EventMask) : Eventloop :=
  let op := if fd ∈ l.listenFds then Op.mod else Op.add
  -- A failed call is only logged.
  { kernel := (l.kernel.epollCtl op fd mask).getD l.kernel,
    listenFds := insert fd l.listenFds }

/-- `Eventloop::deleteEpollEvent` on the thread of the loop. -/
def deleteEpollEvent (l : Eventloop) (fd : ℕ) : Eventloop :=
  if fd ∉ l.listenFds then l
  else
    { kernel := (l.kernel.epollCtl .del fd {}).getD l.kernel,
      listenFds := l.listenFds.erase fd }

/-- A loop that has registered nothing. -/
def new (opened : Finset ℕ) : Eventloop := { kernel := .unregistered opened }

end Eventloop

/-- What happens on the thread of a loop: a descriptor is opened, an event is added or deleted, a
`TcpClient` is destroyed and closes its descriptor, unless that is 0, or a failed connect closes it,
opens another one and deletes the event. -/
inductive LoopEvent
  | socket (fd : ℕ)
  | add (fd : ℕ) (mask : EventMask)
  | delete (fd : ℕ)
  | destroy (fd : ℕ)
  | reconnect (fd : ℕ) (fd' : Option ℕ)
  deriving DecidableEq, Repr

/-- A step on the thread of the loop. The number of a new descriptor is one that is not open. -/
def loopStep (l : Eventloop) : LoopEvent → Option Eventloop
  | .socket fd =>
    if fd ∈ l.kernel.opened then none else some { l with kernel := l.kernel.opens fd }
  | .add fd mask => some (l.addEpollEvent fd mask)
  | .delete fd => some (l.deleteEpollEvent fd)
  | .destroy fd =>
    if fd ∉ l.kernel.opened then none
    else some { l with kernel := if 0 < fd then l.kernel.close fd else l.kernel }
  | .reconnect fd fd' =>
    if fd ∉ l.kernel.opened then none
    else
      match fd' with
      | none => some ({ l with kernel := l.kernel.close fd }.deleteEpollEvent fd)
      | some fd' =>
        if fd' ∈ (l.kernel.close fd).opened then none
        else some ({ l with kernel := (l.kernel.close fd).opens fd' }.deleteEpollEvent fd)

/-- The set of the loop is that of the open descriptors registered with it. -/
def Faithful (l : Eventloop) : Prop :=
  ∀ fd, fd ∈ l.listenFds ↔ fd ∈ l.kernel.opened ∧ l.kernel.Registered fd

/-- The step deletes the event of the descriptor. -/
def Deletes (e : LoopEvent) (fd : ℕ) : Prop := e = .delete fd ∨ ∃ fd', e = .reconnect fd fd'

/-- **A step that leads to `l` has kept the sets in step**: the set of the loop is the kernel's, an
added event is watched with its mask, and a deleted one is not. -/
structure InStep (e : LoopEvent) (l : Eventloop) : Prop where
  faithful : Faithful l
  added : ∀ fd mask, e = .add fd mask → fd ∈ l.kernel.opened → l.kernel.interest fd = some mask
  deleted : ∀ fd, Deletes e fd → ¬ l.kernel.Registered fd

/-- The step `e` keeps the sets in step. -/
def KeepsInStep (l : Eventloop) (e : LoopEvent) : Prop :=
  ∀ l', loopStep l e = some l' → InStep e l'

/-- No event of a closed descriptor is added, and no client is destroyed whose descriptor is
registered, unless that is 0. -/
def Regular (l : Eventloop) : LoopEvent → Prop
  | .add fd _ => fd ∈ l.kernel.opened
  | .destroy fd => 0 < fd → ¬ l.kernel.Registered fd
  | _ => True

/-! ## One step -/

section Step

variable {l l' : Eventloop} {e : LoopEvent} {fd : ℕ} {mask : EventMask}

/-- As only open descriptors are registered, the set of the loop is that of the registered ones. -/
theorem faithful_iff (hsound : l.kernel.Sound) :
    Faithful l ↔ ∀ fd, fd ∈ l.listenFds ↔ l.kernel.Registered fd :=
  forall_congr' fun fd => iff_congr Iff.rfl (and_iff_right_of_imp (hsound fd))

/-- What adding does where the sets are the same. -/
theorem addEpollEvent_of_open (h : fd ∈ l.listenFds ↔ l.kernel.Registered fd)
    (hopen : fd ∈ l.kernel.opened) :
    l.addEpollEvent fd mask = ⟨l.kernel.watch fd (some mask), insert fd l.listenFds⟩ := by
  unfold Eventloop.addEpollEvent
  dsimp only
  split_ifs with hlisten
  · rw [Kernel.epollCtl_mod hopen (h.mp hlisten)]
    rfl
  · rw [Kernel.epollCtl_add hopen (fun hregistered => hlisten (h.mpr hregistered))]
    rfl

/-- Adding an event of a closed descriptor puts it into the set of the loop. -/
theorem addEpollEvent_of_closed (hclosed : fd ∉ l.kernel.opened) :
    l.addEpollEvent fd mask = ⟨l.kernel, insert fd l.listenFds⟩ := by
  unfold Eventloop.addEpollEvent
  dsimp only
  rw [Kernel.epollCtl_of_closed hclosed]
  rfl

/-- **What deleting does** where the set of the loop has the descriptor if it is registered: it is
out of both sets, and the others are as before. -/
theorem deleteEpollEvent_spec (hsound : l.kernel.Sound)
    (hself : l.kernel.Registered fd → fd ∈ l.listenFds) :
    (l.deleteEpollEvent fd).kernel.Sound ∧
      (∀ fd', (l.deleteEpollEvent fd).kernel.Registered fd' ↔
        fd' ≠ fd ∧ l.kernel.Registered fd') ∧
      ∀ fd', fd' ∈ (l.deleteEpollEvent fd).listenFds ↔ fd' ≠ fd ∧ fd' ∈ l.listenFds := by
  unfold Eventloop.deleteEpollEvent
  split_ifs with hlisten
  · by_cases hregistered : l.kernel.Registered fd
    · rw [Kernel.epollCtl_del (hsound fd hregistered) hregistered]
      refine ⟨hsound.watch (hsound fd hregistered) none, fun fd' => ?_,
        fun fd' => Finset.mem_erase⟩
      rw [Option.getD_some, Kernel.registered_watch]
      simp
    · -- The call fails, and nothing was registered.
      rw [Kernel.epollCtl_del_of_unregistered hregistered]
      refine ⟨hsound, fun fd' => (and_iff_right_of_imp ?_).symm, fun fd' => Finset.mem_erase⟩
      rintro hfd' rfl
      exact hregistered hfd'
  · have hregistered : ¬ l.kernel.Registered fd := fun h => hlisten (hself h)
    refine ⟨hsound, fun fd' => (and_iff_right_of_imp ?_).symm,
      fun fd' => (and_iff_right_of_imp ?_).symm⟩
    · rintro hfd' rfl
      exact hregistered hfd'
    · rintro hfd' rfl
      exact hlisten hfd'

/-- Deleting puts the sets in step, if they are on all other descriptors. -/
theorem faithful_deleteEpollEvent (hsound : l.kernel.Sound)
    (hself : l.kernel.Registered fd → fd ∈ l.listenFds)
    (hothers : ∀ fd', fd' ≠ fd → (fd' ∈ l.listenFds ↔ l.kernel.Registered fd')) :
    (l.deleteEpollEvent fd).kernel.Sound ∧ Faithful (l.deleteEpollEvent fd) ∧
      ¬ (l.deleteEpollEvent fd).kernel.Registered fd := by
  obtain ⟨hsound', hregistered, hlisten⟩ := deleteEpollEvent_spec hsound hself
  refine ⟨hsound', (faithful_iff hsound').mpr fun fd' => ?_, ?_⟩
  · rw [hlisten, hregistered]
    exact and_congr_right (hothers fd')
  · rw [hregistered]
    exact fun h => h.1 rfl

/-- A step that neither adds nor deletes keeps the sets in step if they are the same after it. -/
theorem InStep.of_faithful (h : Faithful l) (hadd : ∀ fd mask, e ≠ .add fd mask)
    (hdelete : ∀ fd, ¬ Deletes e fd) : InStep e l :=
  ⟨h, fun fd mask he => absurd he (hadd fd mask), fun fd he => absurd he (hdelete fd)⟩

/-- A step that deletes keeps the sets in step if they are the same after it. -/
theorem InStep.of_deleted (h : Faithful l) (hadd : ∀ fd mask, e ≠ .add fd mask)
    (hdelete : ∀ fd', Deletes e fd' → fd' = fd) (hnot : ¬ l.kernel.Registered fd) : InStep e l :=
  ⟨h, fun fd mask he => absurd he (hadd fd mask), fun _ he => hdelete _ he ▸ hnot⟩

/-- A failed connect keeps the sets in step: closing has dropped the registration, and deleting
takes the descriptor out of the set of the loop. -/
theorem inStep_reconnect (hsame : ∀ fd, fd ∈ l.listenFds ↔ l.kernel.Registered fd)
    {k : Kernel EventMask} (hk : k.Sound)
    (hregistered : ∀ n, k.Registered n ↔ n ≠ fd ∧ l.kernel.Registered n) (fd' : Option ℕ) :
    InStep (.reconnect fd fd') ({ l with kernel := k }.deleteEpollEvent fd) ∧
      ({ l with kernel := k }.deleteEpollEvent fd).kernel.Sound := by
  have hself : k.Registered fd → fd ∈ l.listenFds := fun h => absurd rfl ((hregistered fd).mp h).1
  have hothers : ∀ n, n ≠ fd → (n ∈ l.listenFds ↔ k.Registered n) := by
    intro n hne
    rw [hregistered, hsame]
    exact (and_iff_right hne).symm
  obtain ⟨hsound, hfaithful, hnot⟩ :=
    faithful_deleteEpollEvent (l := { l with kernel := k }) hk hself hothers
  refine ⟨.of_deleted hfaithful ?_ ?_ hnot, hsound⟩
  · rintro n mask ⟨⟩
  · rintro n (⟨⟨⟩⟩ | ⟨n', ⟨⟩⟩)
    rfl

/-- Adding an event keeps the sets in step exactly if the descriptor is open. -/
theorem inStep_add_iff (hsound : l.kernel.Sound)
    (hsame : ∀ fd, fd ∈ l.listenFds ↔ l.kernel.Registered fd) :
    (InStep (.add fd mask) (l.addEpollEvent fd mask) ↔ fd ∈ l.kernel.opened) ∧
      (l.addEpollEvent fd mask).kernel.Sound := by
  by_cases hopen : fd ∈ l.kernel.opened
  · rw [addEpollEvent_of_open (hsame fd) hopen]
    refine ⟨iff_of_true ⟨?_, ?_, ?_⟩ hopen, hsound.watch hopen _⟩
    · refine (faithful_iff (hsound.watch hopen _)).mpr fun n => ?_
      rw [Finset.mem_insert, hsame n, Kernel.registered_watch]
      by_cases hne : n = fd <;> simp [hne]
    · rintro n mask' ⟨⟩ -
      exact Kernel.interest_watch_self ..
    · rintro n (⟨⟨⟩⟩ | ⟨n', ⟨⟩⟩)
  · rw [addEpollEvent_of_closed hopen]
    refine ⟨iff_of_false (fun h => ?_) hopen, hsound⟩
    exact hopen ((h.faithful fd).mp (Finset.mem_insert_self ..)).1

/-- Closing a descriptor keeps the sets in step exactly if it is not registered. -/
theorem inStep_close_iff (hsound : l.kernel.Sound)
    (hsame : ∀ fd, fd ∈ l.listenFds ↔ l.kernel.Registered fd) :
    InStep (.destroy fd) { l with kernel := l.kernel.close fd } ↔ ¬ l.kernel.Registered fd := by
  constructor
  · intro h hregistered
    -- The loop still has the descriptor, which is closed.
    have hlisten := (h.faithful fd).mp ((hsame fd).mpr hregistered)
    exact ((Kernel.registered_close _).mp hlisten.2).1 rfl
  · intro hregistered
    have hfaithful : Faithful { l with kernel := l.kernel.close fd } := by
      refine (faithful_iff (hsound.close fd)).mpr fun n => (hsame n).trans ?_
      rw [Kernel.registered_close, iff_and_self]
      rintro hn rfl
      exact hregistered hn
    refine .of_faithful hfaithful ?_ ?_
    · rintro n mask ⟨⟩
    · rintro n (⟨⟨⟩⟩ | ⟨n', ⟨⟩⟩)

/-- A client that is destroyed keeps the sets in step exactly if it closes no registered
descriptor. -/
theorem inStep_destroy_iff (hsound : l.kernel.Sound)
    (hsame : ∀ fd, fd ∈ l.listenFds ↔ l.kernel.Registered fd) :
    (InStep (.destroy fd) { l with kernel := if 0 < fd then l.kernel.close fd else l.kernel } ↔
      (0 < fd → ¬ l.kernel.Registered fd)) ∧
      (if 0 < fd then l.kernel.close fd else l.kernel).Sound := by
  split_ifs with hpos
  · rw [inStep_close_iff hsound hsame]
    exact ⟨(imp_iff_right hpos).symm, hsound.close fd⟩
  · refine ⟨iff_of_true (.of_faithful ((faithful_iff hsound).mpr hsame) ?_ ?_) hpos.elim, hsound⟩
    · rintro n mask ⟨⟩
    · rintro n (⟨⟨⟩⟩ | ⟨n', ⟨⟩⟩)

/-- **A step keeps the sets in step** exactly if it is regular. -/
theorem inStep_step_iff (hfaithful : Faithful l) (hsound : l.kernel.Sound)
    (hstep : loopStep l e = some l') :
    (InStep e l' ↔ Regular l e) ∧ l'.kernel.Sound := by
  have hsame := (faithful_iff hsound).mp hfaithful
  cases e with
  | socket fd =>
    rw [loopStep] at hstep
    split_ifs at hstep with hclosed
    cases hstep
    -- Opening a descriptor registers nothing.
    have hfaithful' : Faithful { l with kernel := l.kernel.opens fd } :=
      (faithful_iff (hsound.opens fd)).mpr hsame
    refine ⟨iff_of_true (.of_faithful hfaithful' ?_ ?_) trivial, hsound.opens fd⟩
    · rintro n mask ⟨⟩
    · rintro n (⟨⟨⟩⟩ | ⟨n', ⟨⟩⟩)
  | add fd mask =>
    cases hstep
    exact inStep_add_iff hsound hsame
  | delete fd =>
    cases hstep
    obtain ⟨hsound', hfaithful', hnot⟩ :=
      faithful_deleteEpollEvent hsound (hsame fd).mpr fun n _ => hsame n
    refine ⟨iff_of_true (.of_deleted hfaithful' ?_ ?_ hnot) trivial, hsound'⟩
    · rintro n mask ⟨⟩
    · rintro n (⟨⟨⟩⟩ | ⟨n', ⟨⟩⟩)
      rfl
  | destroy fd =>
    rw [loopStep, Option.ite_none_left_eq_some] at hstep
    obtain rfl := Option.some.inj hstep.2
    exact inStep_destroy_iff hsound hsame
  | reconnect fd fd' =>
    have hkeeps : ∀ k : Kernel EventMask, k.Sound →
        (∀ n, k.Registered n ↔ n ≠ fd ∧ l.kernel.Registered n) →
          l' = { l with kernel := k }.deleteEpollEvent fd →
            (InStep (.reconnect fd fd') l' ↔ Regular l (.reconnect fd fd')) ∧ l'.kernel.Sound := by
      rintro k hk hregistered rfl
      obtain ⟨hinStep, hsound'⟩ := inStep_reconnect hsame hk hregistered fd'
      exact ⟨iff_of_true hinStep trivial, hsound'⟩
    cases fd' with
    | none =>
      rw [loopStep] at hstep
      split_ifs at hstep
      cases hstep
      exact hkeeps _ (hsound.close fd) (fun _ => Kernel.registered_close _) rfl
    | some fd' =>
      rw [loopStep] at hstep
      split_ifs at hstep
      cases hstep
      exact hkeeps _ ((hsound.close fd).opens fd') (fun _ => Kernel.registered_close _) rfl

end Step

/-! ## All steps -/

/-- **The set of a loop stays in step with the kernel** exactly if all steps are regular. -/
theorem inStep_iff (opened : Finset ℕ) (es : List LoopEvent)
    (hrun : (exec loopStep (.new opened) es).isSome) :
    Along loopStep KeepsInStep (.new opened) es ↔
      Along loopStep Regular (.new opened) es := by
  refine along_iff (I := fun l => Faithful l ∧ l.kernel.Sound) hrun ?_ ?_ ?_
  · refine ⟨(faithful_iff (Kernel.sound_unregistered _)).mpr fun fd => ?_,
      Kernel.sound_unregistered _⟩
    simp [Eventloop.new, Kernel.unregistered, Kernel.Registered]
  · rintro l e l' ⟨hfaithful, hsound⟩ hstep
    rw [← (inStep_step_iff hfaithful hsound hstep).1]
    constructor
    · exact fun h => h l' hstep
    · rintro h l'' hstep'
      obtain rfl := Option.some.inj (hstep.symm.trans hstep')
      exact h
  · rintro l e l' ⟨hfaithful, hsound⟩ hstep h
    exact ⟨(h l' hstep).faithful, (inStep_step_iff hfaithful hsound hstep).2⟩

instance (l : Eventloop) : DecidablePred (Regular l)
  | .add _ _ => inferInstanceAs (Decidable (_ ∈ _))
  | .destroy _ => inferInstanceAs (Decidable (_ → ¬ _))
  | .socket _ => .isTrue trivial
  | .delete _ => .isTrue trivial
  | .reconnect _ _ => .isTrue trivial

/-- A client that deletes its event before it is destroyed, and a second one. -/
theorem inStep_deleted :
    Along loopStep KeepsInStep (.new ∅)
      [.socket 5, .add 5 ⟨true, false⟩, .delete 5, .destroy 5, .socket 5, .add 5 ⟨true, false⟩] :=
  (inStep_iff ∅ _ (by decide)).mpr (by decide)

/-- **A client that is destroyed as it is hides the next one**: the second event is never
watched. -/
theorem not_inStep_destroyed :
    (exec loopStep (.new ∅) [.socket 5, .add 5 ⟨true, false⟩, .destroy 5, .socket 5,
        .add 5 ⟨true, false⟩]).isSome ∧
      ¬ Along loopStep KeepsInStep (.new ∅)
        [.socket 5, .add 5 ⟨true, false⟩, .destroy 5, .socket 5, .add 5 ⟨true, false⟩] := by
  refine ⟨by decide, fun h => ?_⟩
  have hlast := ((((h.2 _ rfl).2 _ rfl).2 _ rfl).2 _ rfl).1 _ rfl
  -- The descriptor is open, but changing its mask has failed.
  have hinterest := hlast.added 5 ⟨true, false⟩ rfl (by decide)
  revert hinterest
  decide

end TalonRPC
