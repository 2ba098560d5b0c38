import Mathlib.Data.List.Basic
import Mathlib.Data.List.Induction
import Mathlib.Logic.Function.Basic

/-!
# Directories

A directory gives addresses to names. A name is added with an address; as long as it is there, its
address can be modified, and it can be deleted. What a directory says about a name depends on the
last operation on it that had an effect.

## Main definitions

* `Op`: the operations on a directory
* `after ops`: the directory after the operations `ops`
* `Effective before op`: the operation has an effect after those `before` it
* `LastEffective ops n op`: `op` is the last operation on `n` that had an effect

## Main results

* `after_eq_some_iff`: a name has the address of its last effective operation
* `after_eq_none_iff`: a name is not there if it was never added, or that operation was a delete
* `after_eq_filter`: operations on other names do not matter
* `after_map`: the form of the addresses does not matter
-/

namespace Directory

/-- The operations on a directory. -/
inductive Op (N A : Type)
  | add (n : N) (a : A)
  | modify (n : N) (a : A)
  | delete (n : N)
  deriving DecidableEq, Repr

variable {N A : Type}

/-- The name an operation is about. -/
def Op.name : Op N A → N
  | .add n _ => n
  | .modify n _ => n
  | .delete n => n

/-- The address an operation gives to its name. -/
def Op.addr : Op N A → Option A
  | .add _ a => some a
  | .modify _ a => some a
  | .delete _ => none

/-- The operation with another form of its address. -/
def Op.map {B : Type} (f : A → B) : Op N A → Op N B
  | .add n a => .add n (f a)
  | .modify n a => .modify n (f a)
  | .delete n => .delete n

variable [DecidableEq N]

/-- The directory after an operation. -/
def apply (d : N → Option A) : Op N A → N → Option A
  | .add n a => Function.update d n (some a)
  | .modify n a => if (d n).isSome then Function.update d n (some a) else d
  | .delete n => Function.update d n none

/-- The directory after the operations `ops`, empty at first. -/
def after (ops : List (Op N A)) : N → Option A := ops.foldl apply fun _ => none

/-- The operation has an effect after those `before` it: it adds its name, or finds it there. -/
def Effective (before : List (Op N A)) : Op N A → Prop
  | .add _ _ => True
  | .modify n _ => (after before n).isSome
  | .delete n => (after before n).isSome

/-- The last of the operations on `n` that had an effect is `op`. -/
def LastEffective (ops : List (Op N A)) (n : N) (op : Op N A) : Prop :=
  ∃ before rest, ops = before ++ op :: rest ∧ op.name = n ∧ Effective before op ∧
    ∀ mid op' tail, rest = mid ++ op' :: tail → op'.name = n →
      ¬ Effective (before ++ op :: mid) op'

variable {ops ops' : List (Op N A)} {op o : Op N A} {n : N} {a : A}

theorem after_snoc (ops : List (Op N A)) (o : Op N A) :
    after (ops ++ [o]) = apply (after ops) o := by
  rw [after, List.foldl_append]
  rfl

theorem apply_of_ne (d : N → Option A) (h : o.name ≠ n) : apply d o n = d n := by
  have hne : n ≠ o.name := Ne.symm h
  cases o with
  | add m a => exact Function.update_of_ne hne ..
  | modify m a =>
    rw [apply]
    split_ifs
    · exact Function.update_of_ne hne ..
    · rfl
  | delete m => exact Function.update_of_ne hne ..

/-- What an operation does to a name. -/
theorem apply_cases (ops : List (Op N A)) (o : Op N A) (n : N) :
    (o.name = n ∧ Effective ops o ∧ apply (after ops) o n = o.addr) ∨
      (¬ (o.name = n ∧ Effective ops o) ∧ apply (after ops) o n = after ops n) := by
  by_cases hname : o.name = n
  · subst hname
    cases o with
    | add m a => exact .inl ⟨rfl, trivial, Function.update_self ..⟩
    | modify m a =>
      by_cases hthere : (after ops m).isSome = true
      · refine .inl ⟨rfl, hthere, ?_⟩
        rw [apply, if_pos hthere]
        exact Function.update_self ..
      · refine .inr ⟨fun h => hthere h.2, ?_⟩
        rw [apply, if_neg hthere]
    | delete m =>
      by_cases hthere : (after ops m).isSome = true
      · exact .inl ⟨rfl, hthere, Function.update_self ..⟩
      · -- Deleting a name that is not there leaves it so.
        refine .inr ⟨fun h => hthere h.2, (Function.update_self ..).trans ?_⟩
        exact (Option.not_isSome_iff_eq_none.mp hthere).symm
  · exact .inr ⟨fun h => hname h.1, apply_of_ne _ hname⟩

theorem LastEffective.mem (h : LastEffective ops n op) : op ∈ ops := by
  obtain ⟨before, rest, rfl, -⟩ := h
  simp

/-- One more operation is the last effective one, or leaves the one before it. -/
theorem lastEffective_snoc : LastEffective (ops ++ [o]) n op ↔
    (o.name = n ∧ Effective ops o ∧ op = o) ∨
      (¬ (o.name = n ∧ Effective ops o) ∧ LastEffective ops n op) := by
  constructor
  · rintro ⟨before, rest, hsplit, hname, heffective, hrest⟩
    rcases List.eq_nil_or_concat' rest with rfl | ⟨rest, o', rfl⟩
    · obtain ⟨rfl, ho⟩ := List.append_inj' hsplit rfl
      obtain rfl := (List.cons.inj ho).1
      exact .inl ⟨hname, heffective, rfl⟩
    · rw [← List.cons_append, ← List.append_assoc] at hsplit
      obtain ⟨rfl, ho⟩ := List.append_inj' hsplit rfl
      obtain rfl := (List.cons.inj ho).1
      refine .inr ⟨fun h => hrest rest o [] rfl h.1 h.2, before, rest, rfl, hname, heffective, ?_⟩
      rintro mid op' tail rfl
      exact hrest mid op' (tail ++ [o]) (by simp)
  · rintro (⟨hname, heffective, rfl⟩ | ⟨hnot, before, rest, rfl, hname, heffective, hrest⟩)
    · exact ⟨ops, [], rfl, hname, heffective, by simp⟩
    · refine ⟨before, rest ++ [o], by simp, hname, heffective, ?_⟩
      intro mid op' tail hsplit hname' heffective'
      rcases List.eq_nil_or_concat' tail with rfl | ⟨tail, o', rfl⟩
      · obtain ⟨rfl, ho⟩ := List.append_inj' hsplit rfl
        obtain rfl := (List.cons.inj ho).1
        exact hnot ⟨hname', heffective'⟩
      · rw [← List.cons_append, ← List.append_assoc] at hsplit
        obtain ⟨rfl, -⟩ := List.append_inj' hsplit rfl
        exact hrest mid op' tail rfl hname' heffective'

/-- **A name has the address of its last effective operation.** -/
theorem after_eq_some_iff :
    after ops n = some a ↔ ∃ op, LastEffective ops n op ∧ op.addr = some a := by
  induction ops using List.reverseRecOn with
  | nil =>
    constructor
    · intro h
      cases h
    · rintro ⟨op, ⟨before, rest, h, -⟩, -⟩
      simp at h
  | append_singleton ops o ih =>
    rw [after_snoc]
    rcases apply_cases ops o n with ⟨hname, heffective, happly⟩ | ⟨hnot, happly⟩
    · rw [happly]
      constructor
      · intro h
        exact ⟨o, lastEffective_snoc.mpr (.inl ⟨hname, heffective, rfl⟩), h⟩
      · rintro ⟨op, hlast, haddr⟩
        rcases lastEffective_snoc.mp hlast with ⟨-, -, rfl⟩ | ⟨hnot, -⟩
        · exact haddr
        · exact absurd ⟨hname, heffective⟩ hnot
    · rw [happly, ih]
      refine exists_congr fun op => and_congr_left fun _ => ?_
      rw [lastEffective_snoc]
      constructor
      · exact fun h => .inr ⟨hnot, h⟩
      · rintro (⟨hname, heffective, -⟩ | ⟨-, h⟩)
        · exact absurd ⟨hname, heffective⟩ hnot
        · exact h

/-- A name that is there has been added. -/
theorem exists_add_of_after (h : after ops n ≠ none) : ∃ a, .add n a ∈ ops := by
  induction ops using List.reverseRecOn with
  | nil => exact absurd rfl h
  | append_singleton ops o ih =>
    rw [after_snoc] at h
    rcases apply_cases ops o n with ⟨rfl, heffective, -⟩ | ⟨-, happly⟩
    · cases o with
      | add m a => exact ⟨a, by simp [Op.name]⟩
      | modify m a =>
        obtain ⟨a', ha'⟩ := ih (Option.isSome_iff_ne_none.mp heffective)
        exact ⟨a', List.mem_append_left _ ha'⟩
      | delete m =>
        obtain ⟨a', ha'⟩ := ih (Option.isSome_iff_ne_none.mp heffective)
        exact ⟨a', List.mem_append_left _ ha'⟩
    · obtain ⟨a', ha'⟩ := ih (happly ▸ h)
      exact ⟨a', List.mem_append_left _ ha'⟩

/-- **A name is not there** exactly if it was never added, or was deleted last. -/
theorem after_eq_none_iff :
    after ops n = none ↔ (∀ a, .add n a ∉ ops) ∨ LastEffective ops n (.delete n) := by
  induction ops using List.reverseRecOn with
  | nil => exact iff_of_true rfl (.inl (by simp))
  | append_singleton ops o ih =>
    constructor
    · intro h
      by_cases hnever : ∀ a, .add n a ∉ ops ++ [o]
      · exact .inl hnever
      right
      rw [after_snoc] at h
      rcases apply_cases ops o n with ⟨rfl, heffective, happly⟩ | ⟨hnot, happly⟩
      · -- The last operation has left the name without an address.
        cases o with
        | add m a => cases happly.symm.trans h
        | modify m a => cases happly.symm.trans h
        | delete m => exact lastEffective_snoc.mpr (.inl ⟨rfl, heffective, rfl⟩)
      · rcases ih.mp (happly.symm.trans h) with hops | hlast
        · refine absurd (fun a ha => ?_) hnever
          rcases List.mem_append.mp ha with ha | ha
          · exact hops a ha
          · obtain rfl := List.mem_singleton.mp ha
            exact hnot ⟨rfl, trivial⟩
        · exact lastEffective_snoc.mpr (.inr ⟨hnot, hlast⟩)
    · rintro (hnever | hlast)
      · by_contra hthere
        obtain ⟨a, ha⟩ := exists_add_of_after hthere
        exact hnever a ha
      · rw [after_snoc]
        rcases lastEffective_snoc.mp hlast with ⟨-, -, rfl⟩ | ⟨hnot, hlast⟩
        · exact Function.update_self ..
        · rcases apply_cases ops o n with ⟨hname, heffective, -⟩ | ⟨-, happly⟩
          · exact absurd ⟨hname, heffective⟩ hnot
          · exact happly.trans (ih.mpr (.inr hlast))

/-- What an operation does to a name depends on what is known of that name. -/
theorem apply_congr {d d' : N → Option A} (h : d n = d' n) : apply d o n = apply d' o n := by
  by_cases hname : o.name = n
  · subst hname
    cases o with
    | add m a => simp [apply, Op.name]
    | modify m a =>
      have hthere : d m = d' m := h
      rw [apply, apply, hthere]
      split_ifs
      · simp [Op.name]
      · exact h
    | delete m => simp [apply, Op.name]
  · rw [apply_of_ne d hname, apply_of_ne d' hname, h]

/-- **Operations on other names do not matter.** -/
theorem after_eq_filter (ops : List (Op N A)) (n : N) :
    after ops n = after (ops.filter (·.name = n)) n := by
  induction ops using List.reverseRecOn with
  | nil => rfl
  | append_singleton ops o ih =>
    rw [after_snoc, List.filter_append]
    by_cases hname : o.name = n
    · rw [List.filter_cons_of_pos (by simpa using hname), List.filter_nil, after_snoc]
      exact apply_congr ih
    · rw [List.filter_cons_of_neg (by simpa using hname), List.filter_nil, List.append_nil,
        apply_of_ne _ hname, ih]

variable {B : Type}

theorem apply_map (f : A → B) (d : N → Option A) (o : Op N A) :
    apply (fun n => (d n).map f) (o.map f) = fun n => (apply d o n).map f := by
  cases o with
  | add m a => exact (Function.comp_update (Option.map f) d m (some a)).symm
  | modify m a =>
    simp only [apply, Op.map, Option.isSome_map]
    split_ifs
    · exact (Function.comp_update (Option.map f) d m (some a)).symm
    · rfl
  | delete m => exact (Function.comp_update (Option.map f) d m none).symm

/-- **The form of the addresses does not matter.** -/
theorem after_map (f : A → B) (ops : List (Op N A)) :
    after (ops.map (Op.map f)) = fun n => (after ops n).map f := by
  induction ops using List.reverseRecOn with
  | nil => rfl
  | append_singleton ops o ih =>
    rw [List.map_append, List.map_singleton, after_snoc, ih, apply_map, after_snoc]

end Directory
