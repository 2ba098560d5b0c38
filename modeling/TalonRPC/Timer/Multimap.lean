import Mathlib.Data.List.Sort
import Mathlib.Data.List.TakeWhile
import Mathlib.Order.Lattice

/-!
# Multimaps

A multimap holds entries in the order of their keys, and those with the same key in the order in
which they came. The structure carries the order, so that what is asked about the first entry, or
about the entries up to a key, is about the smallest keys.

## Main definitions

* `Multimap κ ν`: entries in the order of their keys
* `emplace`, `eraseUpTo`, `eraseValue`: the operations that change it
* `upTo`: the entries that a walk from the beginning finds before a key is exceeded

## Main results

* `emplace_perm`: emplacing adds one entry
* `upTo_eq_filter`, `entries_eraseUpTo`: the walk finds exactly the entries up to the key
* `entries_eraseValue`: erasing a value among those of a key erases one entry
-/

/-- Entries in the order of their keys. -/
structure Multimap (κ ν : Type) [LinearOrder κ] where
  entries : List (κ × ν) := []
  sorted : entries.Pairwise (fun p q => p.1 ≤ q.1) := by simp

namespace Multimap

/-- Where a list has what satisfies a condition before what does not, walking from the beginning as
long as it holds finds all of it. -/
theorem takeWhile_eq_filter {α : Type} {P : α → Bool} {l : List α}
    (h : l.Pairwise fun x y => P y = true → P x = true) :
    l.takeWhile P = l.filter P ∧ l.dropWhile P = l.filter fun x => !P x := by
  induction l with
  | nil => exact ⟨rfl, rfl⟩
  | cons x l ih =>
    obtain ⟨hx, hl⟩ := List.pairwise_cons.mp h
    obtain ⟨htake, hdrop⟩ := ih hl
    by_cases hP : P x = true
    · rw [List.takeWhile_cons_of_pos hP, List.filter_cons_of_pos hP,
        List.dropWhile_cons_of_pos hP, List.filter_cons_of_neg (by simpa using hP)]
      exact ⟨congrArg _ htake, hdrop⟩
    · -- Nothing later satisfies the condition either.
      have hall : ∀ y ∈ x :: l, P y = false := by
        intro y hy
        rcases List.mem_cons.mp hy with rfl | hy
        · exact eq_false_of_ne_true hP
        · exact eq_false_of_ne_true fun hPy => hP (hx y hy hPy)
      rw [List.takeWhile_cons_of_neg hP, List.dropWhile_cons_of_neg hP]
      constructor
      · refine (List.filter_eq_nil_iff.mpr fun y hy => ?_).symm
        simp [hall y hy]
      · refine (List.filter_eq_self.mpr fun y hy => ?_).symm
        simp [hall y hy]

variable {κ ν : Type} [LinearOrder κ] {m : Multimap κ ν} {k : κ} {v : ν} {p q : κ × ν}

instance : EmptyCollection (Multimap κ ν) := ⟨{}⟩

@[simp] theorem entries_empty : (∅ : Multimap κ ν).entries = [] := rfl

/-! ## Adding an entry -/

/-- A list in the order of the keys, with an entry after those whose key is not larger. -/
def insertEntry (p : κ × ν) (l : List (κ × ν)) : List (κ × ν) :=
  l.orderedInsert (fun p q => p.1 < q.1) p

theorem sorted_insertEntry (p : κ × ν) {l : List (κ × ν)}
    (h : l.Pairwise (fun p q => p.1 ≤ q.1)) :
    (insertEntry p l).Pairwise (fun p q => p.1 ≤ q.1) := by
  unfold insertEntry
  induction l with
  | nil => simp
  | cons q l ih =>
    obtain ⟨hq, hl⟩ := List.pairwise_cons.mp h
    rw [List.orderedInsert_cons]
    split_ifs with hlt
    · refine List.pairwise_cons.mpr ⟨fun r hr => ?_, h⟩
      rcases List.mem_cons.mp hr with rfl | hr
      · exact hlt.le
      · exact hlt.le.trans (hq r hr)
    · refine List.pairwise_cons.mpr ⟨fun r hr => ?_, ih hl⟩
      rcases (List.mem_orderedInsert _).mp hr with rfl | hr
      · exact not_lt.mp hlt
      · exact hq r hr

/-- `emplace`: the entry comes after those with the same key. -/
def emplace (m : Multimap κ ν) (k : κ) (v : ν) : Multimap κ ν where
  entries := insertEntry (k, v) m.entries
  sorted := sorted_insertEntry (k, v) m.sorted

/-- **Emplacing adds one entry.** -/
theorem emplace_perm (m : Multimap κ ν) (k : κ) (v : ν) :
    (m.emplace k v).entries.Perm ((k, v) :: m.entries) :=
  List.perm_orderedInsert _ _ _

theorem mem_emplace : p ∈ (m.emplace k v).entries ↔ p = (k, v) ∨ p ∈ m.entries := by
  rw [(m.emplace_perm k v).mem_iff, List.mem_cons]

/-! ## The first entries -/

/-- The first entry has the smallest key. -/
theorem le_of_head (h : m.entries = p :: l) (hq : q ∈ m.entries) : p.1 ≤ q.1 := by
  rw [h] at hq
  rcases List.mem_cons.mp hq with rfl | hq
  · exact le_rfl
  · have hsorted := m.sorted
    rw [h] at hsorted
    exact (List.pairwise_cons.mp hsorted).1 q hq

/-- The entries that a walk from the beginning finds before the key is exceeded. -/
def upTo (m : Multimap κ ν) (k : κ) : List (κ × ν) := m.entries.takeWhile fun p => p.1 ≤ k

/-- A range erase up to where this walk ends. -/
def eraseUpTo (m : Multimap κ ν) (k : κ) : Multimap κ ν where
  entries := m.entries.dropWhile fun p => p.1 ≤ k
  sorted := m.sorted.sublist (List.dropWhile_sublist _)

theorem pairwise_le (m : Multimap κ ν) (k : κ) :
    m.entries.Pairwise fun p q => decide (q.1 ≤ k) = true → decide (p.1 ≤ k) = true := by
  refine m.sorted.imp fun {p q} hpq hq => ?_
  exact decide_eq_true (hpq.trans (of_decide_eq_true hq))

/-- **The walk finds exactly the entries up to the key.** -/
theorem upTo_eq_filter (m : Multimap κ ν) (k : κ) :
    m.upTo k = m.entries.filter fun p => p.1 ≤ k := (takeWhile_eq_filter (m.pairwise_le k)).1

theorem mem_upTo : p ∈ m.upTo k ↔ p ∈ m.entries ∧ p.1 ≤ k := by
  rw [upTo_eq_filter, List.mem_filter, decide_eq_true_eq]

theorem sorted_upTo (m : Multimap κ ν) (k : κ) : (m.upTo k).Pairwise (fun p q => p.1 ≤ q.1) :=
  m.sorted.sublist (List.takeWhile_sublist _)

/-- What remains are the entries beyond the key. -/
theorem entries_eraseUpTo (m : Multimap κ ν) (k : κ) :
    (m.eraseUpTo k).entries = m.entries.filter fun p => k < p.1 := by
  refine (takeWhile_eq_filter (m.pairwise_le k)).2.trans (List.filter_congr fun p _ => ?_)
  rw [← decide_not, decide_eq_decide]
  exact not_le

/-- Both parts together are the multimap. -/
theorem upTo_append_eraseUpTo (m : Multimap κ ν) (k : κ) :
    m.upTo k ++ (m.eraseUpTo k).entries = m.entries := List.takeWhile_append_dropWhile

/-! ## Erasing one of the entries with a key -/

variable [DecidableEq ν]

/-- The first entry with the value is erased among those between the lower and the upper bound of
the key. -/
def eraseValue (m : Multimap κ ν) (k : κ) (v : ν) : Multimap κ ν where
  entries :=
    (m.entries.takeWhile fun p => p.1 < k) ++
      ((m.entries.dropWhile fun p => p.1 < k).takeWhile fun p => p.1 ≤ k).eraseP
          (fun p => p.2 = v) ++
        (m.entries.dropWhile fun p => p.1 < k).dropWhile fun p => p.1 ≤ k
  sorted := by
    refine m.sorted.sublist ?_
    conv_rhs => rw [← List.takeWhile_append_dropWhile (p := fun p : κ × ν => p.1 < k)
      (l := m.entries)]
    conv_rhs =>
      rw [← List.takeWhile_append_dropWhile (p := fun p : κ × ν => p.1 ≤ k)
        (l := m.entries.dropWhile fun p => p.1 < k), ← List.append_assoc]
    exact ((List.Sublist.refl _).append (List.eraseP_sublist ..)).append (List.Sublist.refl _)

theorem eraseP_eq_erase {l : List (κ × ν)} (h : ∀ p ∈ l, p.1 = k) (v : ν) :
    (l.eraseP fun p => p.2 = v) = l.erase (k, v) := by
  induction l with
  | nil => rfl
  | cons p l ih =>
    obtain rfl : p.1 = k := h p (List.mem_cons_self ..)
    by_cases hv : p.2 = v
    · rw [List.eraseP_cons_of_pos (by simpa using hv), ← hv, List.erase_cons_head]
    · have hne : (p == (p.1, v)) = false := by
        rw [beq_eq_false_iff_ne]
        exact fun heq => hv (congrArg Prod.snd heq)
      rw [List.eraseP_cons_of_neg (by simpa using hv), List.erase_cons_tail (by simpa using hne),
        ih fun q hq => h q (List.mem_cons_of_mem _ hq)]

/-- **Erasing a value among those of a key erases one entry**, if there is one. -/
theorem entries_eraseValue (m : Multimap κ ν) (k : κ) (v : ν) :
    (m.eraseValue k v).entries = m.entries.erase (k, v) := by
  have hbelow : m.entries.Pairwise fun p q =>
      decide (q.1 < k) = true → decide (p.1 < k) = true := by
    refine m.sorted.imp fun {p q} hpq hq => ?_
    exact decide_eq_true (hpq.trans_lt (of_decide_eq_true hq))
  obtain ⟨htake, hdrop⟩ := takeWhile_eq_filter hbelow
  have hsplit := List.takeWhile_append_dropWhile (p := fun p : κ × ν => p.1 < k) (l := m.entries)
  -- From the lower bound on, the walk up to the key finds the entries with just this key.
  have hfrom := takeWhile_eq_filter ((m.pairwise_le k).sublist
    (List.dropWhile_sublist fun p => decide (p.1 < k)))
  have hsplit' := List.takeWhile_append_dropWhile (p := fun p : κ × ν => p.1 ≤ k)
    (l := m.entries.dropWhile fun p => p.1 < k)
  have hnotBelow : (k, v) ∉ m.entries.takeWhile fun p => p.1 < k := by
    rw [htake, List.mem_filter]
    simp
  have hnotBeyond : (k, v) ∉ (m.entries.dropWhile fun p => p.1 < k).dropWhile fun p => p.1 ≤ k := by
    rw [hfrom.2, List.mem_filter]
    simp
  have hrange : ∀ p ∈ (m.entries.dropWhile fun p => p.1 < k).takeWhile (fun p => p.1 ≤ k),
      p.1 = k := by
    intro p hp
    rw [hfrom.1, List.mem_filter, hdrop, List.mem_filter] at hp
    simp only [decide_eq_true_eq, Bool.not_eq_true', decide_eq_false_iff_not, not_lt] at hp
    exact le_antisymm hp.2 hp.1.2
  calc (m.eraseValue k v).entries
      = (m.entries.takeWhile fun p => p.1 < k) ++
          ((m.entries.dropWhile fun p => p.1 < k).takeWhile fun p => p.1 ≤ k).erase (k, v) ++
            (m.entries.dropWhile fun p => p.1 < k).dropWhile fun p => p.1 ≤ k := by
        rw [← eraseP_eq_erase hrange]
        rfl
    _ = (m.entries.takeWhile fun p => p.1 < k) ++
          (m.entries.dropWhile fun p => p.1 < k).erase (k, v) := by
        conv_rhs => rw [← hsplit', List.erase_append]
        split_ifs with hmem
        · rw [List.append_assoc]
        · rw [List.erase_of_not_mem hmem, List.erase_of_not_mem hnotBeyond, List.append_assoc]
    _ = m.entries.erase (k, v) := by
        conv_rhs => rw [← hsplit, List.erase_append_right _ hnotBelow]

end Multimap
