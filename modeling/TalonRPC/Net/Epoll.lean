import Mathlib.Data.Finset.Basic
import Mathlib.Logic.Function.Basic

/-!
# Descriptors and an epoll instance

The kernel keeps the set of open descriptors, and for an epoll instance the mask each registered
descriptor is watched with. Adding fails on a registered descriptor, changing and deleting on one
that is not, and all of them on a closed descriptor. Closing a descriptor drops its registration,
and its number is free for the next one that is opened.

## Main definitions

* `Kernel μ`: open descriptors, and the interest list of an epoll instance
* `Kernel.opens`, `Kernel.close`, `Kernel.epollCtl`: what can be done with them
* `Kernel.Sound`: only open descriptors are registered

## Main results

* `Sound.opens`, `Sound.close`, `Sound.watch`: soundness is kept
* `epollCtl_add`, `epollCtl_mod`, `epollCtl_del`: when the three calls succeed
-/

namespace Epoll

/-- `EPOLL_CTL_ADD`, `EPOLL_CTL_MOD` and `EPOLL_CTL_DEL`. -/
inductive Op
  | add
  | mod
  | del
  deriving DecidableEq, Repr

/-- The open descriptors, and the masks of those that are registered with an epoll instance. -/
structure Kernel (μ : Type) where
  opened : Finset ℕ
  interest : ℕ → Option μ

namespace Kernel

variable {μ : Type} {k : Kernel μ} {fd fd' : ℕ} {mask : μ} {op : Op}

/-- No descriptor is registered. -/
def unregistered (opened : Finset ℕ) : Kernel μ := ⟨opened, fun _ => none⟩

/-- A closed descriptor is opened. -/
def opens (k : Kernel μ) (fd : ℕ) : Kernel μ := { k with opened := insert fd k.opened }

/-- A descriptor is closed. -/
def close (k : Kernel μ) (fd : ℕ) : Kernel μ where
  opened := k.opened.erase fd
  interest := Function.update k.interest fd none

/-- The interest list with another entry for a descriptor. -/
def watch (k : Kernel μ) (fd : ℕ) (entry : Option μ) : Kernel μ :=
  { k with interest := Function.update k.interest fd entry }

/-- `epoll_ctl`, if it succeeds. -/
def epollCtl (k : Kernel μ) (op : Op) (fd : ℕ) (mask : μ) : Option (Kernel μ) :=
  if fd ∉ k.opened then none
  else
    match op, k.interest fd with
    | .add, none => some (k.watch fd (some mask))
    | .mod, some _ => some (k.watch fd (some mask))
    | .del, some _ => some (k.watch fd none)
    | _, _ => none

/-- The descriptor is registered. -/
def Registered (k : Kernel μ) (fd : ℕ) : Prop := (k.interest fd).isSome

instance (k : Kernel μ) (fd : ℕ) : Decidable (k.Registered fd) :=
  inferInstanceAs (Decidable (_ = true))

/-- Only open descriptors are registered. -/
def Sound (k : Kernel μ) : Prop := ∀ fd, k.Registered fd → fd ∈ k.opened

/-! ## The interest list after a call -/

@[simp] theorem interest_watch_self (k : Kernel μ) (fd : ℕ) (entry : Option μ) :
    (k.watch fd entry).interest fd = entry := Function.update_self ..

theorem registered_watch (k : Kernel μ) (entry : Option μ) :
    (k.watch fd entry).Registered fd' ↔
      (fd' = fd ∧ entry.isSome) ∨ (fd' ≠ fd ∧ k.Registered fd') := by
  unfold Registered watch
  by_cases h : fd' = fd
  · subst h
    simp
  · simp [h]

@[simp] theorem opened_watch (k : Kernel μ) (fd : ℕ) (entry : Option μ) :
    (k.watch fd entry).opened = k.opened := rfl

@[simp] theorem registered_opens (k : Kernel μ) :
    (k.opens fd).Registered fd' ↔ k.Registered fd' := Iff.rfl

theorem registered_close (k : Kernel μ) :
    (k.close fd).Registered fd' ↔ fd' ≠ fd ∧ k.Registered fd' := by
  have h : (k.close fd).Registered fd' ↔ (k.watch fd none).Registered fd' := Iff.rfl
  rw [h, registered_watch]
  simp

/-- Adding succeeds on an open descriptor that is not registered. -/
theorem epollCtl_add (hopen : fd ∈ k.opened) (h : ¬ k.Registered fd) :
    k.epollCtl .add fd mask = some (k.watch fd (some mask)) := by
  have hnone : k.interest fd = none := Option.not_isSome_iff_eq_none.mp h
  simp [epollCtl, hopen, hnone]

/-- Changing succeeds on a registered descriptor. -/
theorem epollCtl_mod (hopen : fd ∈ k.opened) (h : k.Registered fd) :
    k.epollCtl .mod fd mask = some (k.watch fd (some mask)) := by
  obtain ⟨m, hm⟩ := Option.isSome_iff_exists.mp h
  simp [epollCtl, hopen, hm]

/-- So does deleting. -/
theorem epollCtl_del (hopen : fd ∈ k.opened) (h : k.Registered fd) :
    k.epollCtl .del fd mask = some (k.watch fd none) := by
  obtain ⟨m, hm⟩ := Option.isSome_iff_exists.mp h
  simp [epollCtl, hopen, hm]

/-- Nothing succeeds on a closed descriptor. -/
theorem epollCtl_of_closed (h : fd ∉ k.opened) : k.epollCtl op fd mask = none := if_pos h

theorem epollCtl_del_of_unregistered (h : ¬ k.Registered fd) : k.epollCtl .del fd mask = none := by
  have hnone : k.interest fd = none := Option.not_isSome_iff_eq_none.mp h
  simp [epollCtl, hnone]

theorem epollCtl_mod_of_unregistered (h : ¬ k.Registered fd) : k.epollCtl .mod fd mask = none := by
  have hnone : k.interest fd = none := Option.not_isSome_iff_eq_none.mp h
  simp [epollCtl, hnone]

/-! ## Soundness -/

theorem sound_unregistered (opened : Finset ℕ) : (unregistered opened : Kernel μ).Sound := by
  intro fd h
  cases h

theorem Sound.opens (h : k.Sound) (fd : ℕ) : (k.opens fd).Sound := by
  intro fd' hfd'
  exact Finset.mem_insert_of_mem (h fd' hfd')

theorem Sound.close (h : k.Sound) (fd : ℕ) : (k.close fd).Sound := by
  intro fd' hfd'
  obtain ⟨hne, hregistered⟩ := (registered_close k).mp hfd'
  exact Finset.mem_erase.mpr ⟨hne, h fd' hregistered⟩

theorem Sound.watch (h : k.Sound) (hopen : fd ∈ k.opened) (entry : Option μ) :
    (k.watch fd entry).Sound := by
  intro fd' hfd'
  rcases (registered_watch k entry).mp hfd' with ⟨rfl, -⟩ | ⟨-, hregistered⟩
  · exact hopen
  · exact h fd' hregistered

end Kernel

end Epoll
