import TalonRPC.Bytes.NetworkOrder
import TalonRPC.Net.FdEvent
import TalonRPC.Tcp.Buffer

/-!
# The objects of the FdEventGroup

The group keeps pointers: whoever asks for a descriptor twice is to get the same `Fd_Event`, as the
first call has left it. A number beyond the end makes the group half as long again as the number,
with new objects behind those it has. For a number that is not below the first 128 this is always
long enough.

## Main definitions

* `FdEventTable`: the pointers of the group, and the objects they lead to
* `getFdEvent`: the pointer for a descriptor, and the table
* `Represents t g`: following the pointers of `t` gives the group `g`
* `Requests`, `requestStep`: calls of `getFdEvent`, and what they returned
* `Answered`: each call was answered, with one object for each descriptor

## Main results

* `getElem?_reserved`: a call replaces no pointer
* `Numbered.getFdEvent`, `getFdEvent_of_neg`: a call returns the pointer of its number, and for a
  negative number it reads outside the group
* `Represents.reserved`, `Represents.object_getFdEvent`, `Represents.update`: a table that
  represents a group represents it after the same call, and its pointers are those of the group's
  `Fd_Event`s
* `requests_same`: every run of calls is answered
-/

namespace TalonRPC.Net

open Machine

variable {κ : Type}

/-- `FdEventGroup`, as pointers: the `Fd_Event`s that were made, and the positions of those
`m_fd_group` points to. The size of a group is an int. -/
structure FdEventTable (κ : Type) where
  heap : List (FdEvent κ)
  fdGroup : List ℕ
  size_lt : fdGroup.length < 2 ^ 31

namespace FdEventTable

/-- `m_fd_group.push_back(new Fd_Event(i))`, for objects and pointers. -/
def pushNew (p : List (FdEvent κ) × List ℕ) (i : ℕ) : List (FdEvent κ) × List ℕ :=
  (p.1 ++ [{ fd := i }], p.2 ++ [p.1.length])

theorem foldl_pushNew (is : List ℕ) (p : List (FdEvent κ) × List ℕ) :
    is.foldl pushNew p =
      (p.1 ++ is.map fun i => { fd := i }, p.2 ++ List.range' p.1.length is.length) := by
  induction is generalizing p with
  | nil => simp
  | cons i is ih => simp [ih, pushNew, List.range'_succ]

/-- The loops over `i` of the constructor and of `getFdEvent`: they make objects up to a size. -/
def pushUpTo (size : ℤ) (p : List (FdEvent κ) × List ℕ) : List (FdEvent κ) × List ℕ :=
  (List.range' p.2.length (size - p.2.length).toNat).foldl pushNew p

theorem pushUpTo_eq (size : ℤ) (p : List (FdEvent κ) × List ℕ) : pushUpTo size p =
    (p.1 ++ (List.range' p.2.length (size - p.2.length).toNat).map fun i => { fd := i },
      p.2 ++ List.range' p.1.length (size - p.2.length).toNat) := by
  rw [pushUpTo, foldl_pushNew, List.length_range']

theorem length_pushUpTo {size : ℤ} {p : List (FdEvent κ) × List ℕ} (hp : p.2.length < 2 ^ 31)
    (hsize : size < 2 ^ 31) : (pushUpTo size p).2.length < 2 ^ 31 := by
  rw [pushUpTo_eq, List.length_append, List.length_range']
  omega

/-- `FdEventGroup::FdEventGroup`, with the size of `GetFdEventGroup`. -/
def new : FdEventTable κ where
  heap := (pushUpTo 128 (([], []) : List (FdEvent κ) × List ℕ)).1
  fdGroup := (pushUpTo 128 (([], []) : List (FdEvent κ) × List ℕ)).2
  size_lt := length_pushUpTo (by simp) (by decide)

/-- `int(fd * 1.5)`, which is cut off towards zero. Where it exceeds an int, the conversion yields
the least int. -/
def newSize (fd : Int32) : ℤ :=
  if -2 ^ 31 ≤ (3 * fd.toInt).tdiv 2 ∧ (3 * fd.toInt).tdiv 2 < 2 ^ 31 then (3 * fd.toInt).tdiv 2
  else -2 ^ 31

theorem newSize_lt (fd : Int32) : newSize fd < 2 ^ 31 := by
  unfold newSize
  split_ifs with h
  · exact h.2
  · decide

/-- The group made longer, up to a size. -/
def grow (t : FdEventTable κ) (size : ℤ) (h : size < 2 ^ 31) : FdEventTable κ where
  heap := (pushUpTo size (t.heap, t.fdGroup)).1
  fdGroup := (pushUpTo size (t.heap, t.fdGroup)).2
  size_lt := length_pushUpTo t.size_lt h

/-- An int as an index of a vector: a negative one is far beyond its end. -/
def asIndex (fd : Int32) : ℕ := (fd.toInt % 2 ^ 64).toNat

/-- `m_fd_group[fd]`. -/
def entry (t : FdEventTable κ) (fd : Int32) : Except Fault ℕ :=
  match t.fdGroup[asIndex fd]? with
  | some a => .ok a
  | none => .error .outOfBounds

/-- The group that `getFdEvent` takes the pointer from. -/
def reserved (t : FdEventTable κ) (fd : Int32) : FdEventTable κ :=
  if asIndex fd < t.fdGroup.length then t else t.grow (newSize fd) (newSize_lt fd)

/-- `FdEventGroup::getFdEvent`: the pointer, and the table. -/
def getFdEvent (t : FdEventTable κ) (fd : Int32) : Except Fault (ℕ × FdEventTable κ) :=
  ((t.reserved fd).entry fd).map fun a => (a, t.reserved fd)

/-- What a pointer leads to. -/
def object (t : FdEventTable κ) (a : ℕ) : Option (FdEvent κ) := t.heap[a]?

/-- The table after a call of the object at a pointer. -/
def update (t : FdEventTable κ) (a : ℕ) (f : FdEvent κ → FdEvent κ) : FdEventTable κ :=
  { t with heap := t.heap.modify a f }

/-- The table is that of a group: its pointers lead to the `Fd_Event`s of the group. -/
def Represents (t : FdEventTable κ) (g : FdEventGroup κ) : Prop :=
  t.fdGroup.map t.object = g.fdGroup.map some

/-- At least 128 pointers, each to an `Fd_Event` that has its own number. -/
structure Numbered (t : FdEventTable κ) : Prop where
  size_le : 128 ≤ t.fdGroup.length
  getFd : ∀ i < t.fdGroup.length, ∃ a ev, t.fdGroup[i]? = some a ∧ t.object a = some ev ∧ ev.fd = i

variable {t t' : FdEventTable κ} {g : FdEventGroup κ} {fd : Int32} {size : ℤ} {a i j : ℕ}
  {f : FdEvent κ → FdEvent κ}

/-! ## Growing -/

theorem heap_grow (h : size < 2 ^ 31) : (t.grow size h).heap = t.heap ++
    (List.range' t.fdGroup.length (size - t.fdGroup.length).toNat).map fun i => { fd := i } :=
  congrArg Prod.fst (pushUpTo_eq size (t.heap, t.fdGroup))

theorem fdGroup_grow (h : size < 2 ^ 31) : (t.grow size h).fdGroup =
    t.fdGroup ++ List.range' t.heap.length (size - t.fdGroup.length).toNat :=
  congrArg Prod.snd (pushUpTo_eq size (t.heap, t.fdGroup))

theorem heap_new : (new : FdEventTable κ).heap = (List.range 128).map fun i => { fd := i } := by
  simp only [new, pushUpTo_eq, List.range_eq_range']
  rfl

theorem fdGroup_new : (new : FdEventTable κ).fdGroup = List.range 128 := by
  simp only [new, pushUpTo_eq, List.range_eq_range']
  rfl

/-- **Growing replaces no pointer.** -/
theorem getElem?_fdGroup_grow (h : size < 2 ^ 31) (hi : t.fdGroup[i]? = some a) :
    (t.grow size h).fdGroup[i]? = some a := by
  rw [fdGroup_grow, List.getElem?_append_left (List.getElem?_eq_some_iff.mp hi).1, hi]

/-- **Nor an object.** -/
theorem object_grow {ev : FdEvent κ} (h : size < 2 ^ 31) (ha : t.object a = some ev) :
    (t.grow size h).object a = some ev := by
  rw [object, heap_grow, List.getElem?_append_left (List.getElem?_eq_some_iff.mp ha).1]
  exact ha

/-- The new pointers lead to the new objects, in the same order. -/
theorem object_grow_new {k : ℕ} (h : size < 2 ^ 31) (hk : k < (size - t.fdGroup.length).toNat) :
    (t.grow size h).object (t.heap.length + k) = some { fd := t.fdGroup.length + k } := by
  rw [object, heap_grow, List.getElem?_append_right (Nat.le_add_right _ _),
    Nat.add_sub_cancel_left, List.getElem?_map, List.getElem?_range' hk, Nat.one_mul]
  rfl

theorem Numbered.grow (hI : t.Numbered) (h : size < 2 ^ 31) : (t.grow size h).Numbered := by
  have hlength : (t.grow size h).fdGroup.length =
      t.fdGroup.length + (size - t.fdGroup.length).toNat := by
    rw [fdGroup_grow, List.length_append, List.length_range']
  refine ⟨hI.size_le.trans (by omega), fun i hi => ?_⟩
  rcases Nat.lt_or_ge i t.fdGroup.length with hold | hnew
  · obtain ⟨a, ev, ha, hev, hfd⟩ := hI.getFd i hold
    exact ⟨a, ev, getElem?_fdGroup_grow h ha, object_grow h hev, hfd⟩
  · obtain ⟨k, rfl⟩ := Nat.exists_eq_add_of_le hnew
    have hk : k < (size - t.fdGroup.length).toNat := by omega
    refine ⟨t.heap.length + k, _, ?_, object_grow_new h hk, rfl⟩
    rw [fdGroup_grow, List.getElem?_append_right hnew, Nat.add_sub_cancel_left,
      List.getElem?_range' hk, Nat.one_mul]

theorem numbered_new : (new : FdEventTable κ).Numbered := by
  refine ⟨by simp [fdGroup_new], fun i hi => ⟨i, { fd := i }, ?_, ?_, rfl⟩⟩
  · rw [fdGroup_new] at hi ⊢
    rw [List.getElem?_range (by simpa using hi)]
  · rw [fdGroup_new, List.length_range] at hi
    simp [object, heap_new, hi]

/-! ## Calls of the objects -/

/-- **No two numbers share an object.** -/
theorem Numbered.eq_of_getElem? (hI : t.Numbered) (hi : t.fdGroup[i]? = some a)
    (hj : t.fdGroup[j]? = some a) : i = j := by
  obtain ⟨b, ev, hb, hev, rfl⟩ := hI.getFd i (List.getElem?_eq_some_iff.mp hi).1
  obtain ⟨c, ev', hc, hev', rfl⟩ := hI.getFd j (List.getElem?_eq_some_iff.mp hj).1
  obtain rfl := Option.some.inj (hi.symm.trans hb)
  obtain rfl := Option.some.inj (hj.symm.trans hc)
  rw [Option.some.inj (hev.symm.trans hev')]

theorem object_update : (t.update a f).object i =
    (t.object i).map fun ev => if a = i then f ev else ev := List.getElem?_modify ..

theorem Numbered.update (hI : t.Numbered) (a : ℕ) (hf : ∀ ev, (f ev).fd = ev.fd) :
    (t.update a f).Numbered := by
  refine ⟨hI.size_le, fun i hi => ?_⟩
  obtain ⟨b, ev, hb, hev, hfd⟩ := hI.getFd i hi
  refine ⟨b, _, hb, by rw [object_update, hev, Option.map_some], ?_⟩
  by_cases hab : a = b
  · rw [if_pos hab, hf, hfd]
  · rw [if_neg hab, hfd]

/-! ## A call of getFdEvent -/

theorem asIndex_of_nonneg (h : 0 ≤ fd.toInt) : (asIndex fd : ℤ) = fd.toInt := by
  have hrange := Bytes.toInt_range fd
  unfold asIndex
  omega

/-- A negative number is beyond the end of every group. -/
theorem asIndex_of_neg (h : fd.toInt < 0) : 2 ^ 31 ≤ asIndex fd := by
  have hrange := Bytes.toInt_range fd
  unfold asIndex
  omega

/-- Up to `2 ^ 30`, one and a half times a number is an int. -/
theorem newSize_of_nonneg (h : 0 ≤ fd.toInt) (hle : fd.toInt ≤ 2 ^ 30) :
    newSize fd = 3 * fd.toInt / 2 := by
  unfold newSize
  rw [Int.tdiv_eq_ediv_of_nonneg (by omega)]
  exact if_pos (by omega)

/-- **No call replaces a pointer.** -/
theorem getElem?_reserved (fd : Int32) (hi : t.fdGroup[i]? = some a) :
    (t.reserved fd).fdGroup[i]? = some a := by
  unfold reserved
  split_ifs
  · exact hi
  · exact getElem?_fdGroup_grow _ hi

theorem Numbered.reserved (hI : t.Numbered) (fd : Int32) : (t.reserved fd).Numbered := by
  unfold FdEventTable.reserved
  split_ifs
  · exact hI
  · exact hI.grow _

/-- **The number is inside the group then**: half of it is at least one, from two on. -/
theorem Numbered.lt_length_reserved (hI : t.Numbered) (h : 0 ≤ fd.toInt) (hle : fd.toInt ≤ 2 ^ 30) :
    asIndex fd < (t.reserved fd).fdGroup.length := by
  have hindex := asIndex_of_nonneg h
  have hsize := hI.size_le
  unfold FdEventTable.reserved
  split_ifs with hlt
  · exact hlt
  · rw [fdGroup_grow, List.length_append, List.length_range', newSize_of_nonneg h hle]
    omega

/-- **A call returns the pointer of its number.** -/
theorem Numbered.getFdEvent (hI : t.Numbered) (h : 0 ≤ fd.toInt) (hle : fd.toInt ≤ 2 ^ 30) :
    ∃ a, t.getFdEvent fd = .ok (a, t.reserved fd) ∧
      (t.reserved fd).fdGroup[asIndex fd]? = some a := by
  obtain ⟨a, ev, ha, -, -⟩ := (hI.reserved fd).getFd _ (hI.lt_length_reserved h hle)
  refine ⟨a, ?_, ha⟩
  rw [FdEventTable.getFdEvent, entry, ha]
  rfl

/-- **A negative number is no entry of the group**, however long it is. -/
theorem getFdEvent_of_neg (t : FdEventTable κ) (h : fd.toInt < 0) :
    t.getFdEvent fd = .error .outOfBounds := by
  have hindex := asIndex_of_neg h
  have hsize := (t.reserved fd).size_lt
  rw [getFdEvent, entry, List.getElem?_eq_none (hsize.le.trans hindex)]
  rfl

/-! ## The group the table stands for -/

theorem Represents.length_eq (h : t.Represents g) : t.fdGroup.length = g.fdGroup.length := by
  simpa using congrArg List.length h

theorem represents_new : (new : FdEventTable κ).Represents .new := by
  unfold Represents FdEventGroup.new
  rw [fdGroup_new, List.map_map]
  refine List.map_congr_left fun i hi => ?_
  simp [object, heap_new, List.mem_range.mp hi]

/-- The pointers so far lead into the old part of the memory, the new ones into the new part. -/
theorem Represents.map_grow (hrep : t.Represents g) (h : size < 2 ^ 31) :
    (t.grow size h).fdGroup.map (t.grow size h).object = (g.fdGroup ++
      (List.range' g.fdGroup.length (size - g.fdGroup.length).toNat).map
        fun i => ({ fd := i } : FdEvent κ)).map some := by
  have hold : ∀ b ∈ t.fdGroup, (t.grow size h).object b = t.object b := by
    intro b hb
    have hmem : t.object b ∈ g.fdGroup.map some := hrep ▸ List.mem_map_of_mem hb
    obtain ⟨ev, -, hev⟩ := List.mem_map.mp hmem
    rw [← hev, object_grow h hev.symm]
  rw [fdGroup_grow, List.map_append, List.map_congr_left hold, hrep, List.map_append,
    ← hrep.length_eq, List.range'_eq_map_range, List.range'_eq_map_range]
  simp only [List.map_map]
  congr 1
  refine List.map_congr_left fun k hk => ?_
  simp only [Function.comp_apply]
  rw [object_grow_new h (List.mem_range.mp hk)]

/-- **A table that represents a group** represents it after the same call. -/
theorem Represents.reserved (hrep : t.Represents g) (h : 0 ≤ fd.toInt) (hle : fd.toInt ≤ 2 ^ 30) :
    (t.reserved fd).Represents (g.getFdEvent (asIndex fd)) := by
  have hindex := asIndex_of_nonneg h
  unfold FdEventTable.reserved FdEventGroup.getFdEvent
  rw [hrep.length_eq]
  split_ifs with hlt
  · exact hrep
  · have hn : (newSize fd - g.fdGroup.length).toNat = asIndex fd * 3 / 2 - g.fdGroup.length := by
      rw [newSize_of_nonneg h hle]
      omega
    rw [Represents, hrep.map_grow, hn]

/-- A call through the pointer of a number is one of the `Fd_Event` with that number, and of no
other. -/
theorem Represents.update (hrep : t.Represents g) (hI : t.Numbered) (ha : t.fdGroup[i]? = some a)
    (f : FdEvent κ → FdEvent κ) : (t.update a f).Represents (g.update i f) := by
  refine List.ext_getElem? fun j => ?_
  have hj := congrArg (·[j]?) hrep
  simp only [List.getElem?_map] at hj
  rw [List.getElem?_map, List.getElem?_map, FdEventGroup.update, List.getElem?_modify]
  change (t.fdGroup[j]?).map (t.update a f).object = _
  cases hb : t.fdGroup[j]? with
  | none => simpa [hb, eq_comm] using hj
  | some b =>
    have hiff : a = b ↔ i = j := by
      constructor
      · rintro rfl
        exact hI.eq_of_getElem? ha hb
      · rintro rfl
        exact Option.some.inj (ha.symm.trans hb)
    rw [hb, Option.map_some] at hj
    cases hev : g.fdGroup[j]? with
    | none => simp [hev] at hj
    | some ev =>
      rw [hev, Option.map_some] at hj
      simp [object_update, Option.some.inj hj, hiff]

/-- The pointer that is returned leads to the `Fd_Event` of the number. -/
theorem Represents.object_getFdEvent (hrep : t.Represents g) (h : 0 ≤ fd.toInt)
    (hle : fd.toInt ≤ 2 ^ 30) (hget : t.getFdEvent fd = .ok (a, t')) :
    t'.object a = some ((g.getFdEvent (asIndex fd)).event (asIndex fd)) := by
  have hlt := g.lt_length_getFdEvent (asIndex fd)
  have hrep' := hrep.reserved h hle
  have hmap := congrArg (·[asIndex fd]?) hrep'
  unfold getFdEvent entry at hget
  split at hget
  · rename_i b hb
    obtain ⟨rfl, rfl⟩ := Prod.mk.inj (Except.ok.inj hget)
    simpa [hb, hlt, FdEventGroup.event] using hmap
  · cases hget

end FdEventTable

/-! ## Calls -/

/-- A group, and what its calls returned. -/
structure Requests (κ : Type) where
  table : FdEventTable κ
  returned : List (Int32 × ℕ) := []

/-- A call of `getFdEvent`, if it returns. -/
def requestStep (r : Requests κ) (fd : Int32) : Option (Requests κ) :=
  match r.table.getFdEvent fd with
  | .ok (a, t) => some ⟨t, r.returned ++ [(fd, a)]⟩
  | .error _ => none

/-- **All calls are answered**, each with an object of the group that has the number asked for, and
with one object for each number; and all entries of the group have their own numbers. -/
structure Answered (fds : List Int32) (r : Requests κ) : Prop where
  numbered : ∀ i < r.table.fdGroup.length, ∃ a ev, r.table.fdGroup[i]? = some a ∧
    r.table.object a = some ev ∧ ev.fd = i
  all : r.returned.map Prod.fst = fds
  inRange : ∀ p ∈ r.returned, ∃ ev, r.table.fdGroup[FdEventTable.asIndex p.1]? = some p.2 ∧
    r.table.object p.2 = some ev ∧ (ev.fd : ℤ) = p.1.toInt
  same : ∀ p ∈ r.returned, ∀ q ∈ r.returned, p.1 = q.1 → p.2 = q.2

/-- What a call keeps: whatever was returned for a number is the pointer of that number still. -/
structure Recorded (fds : List Int32) (r : Requests κ) : Prop where
  numbered : r.table.Numbered
  all : r.returned.map Prod.fst = fds
  pointer : ∀ p ∈ r.returned, 0 ≤ p.1.toInt ∧
    r.table.fdGroup[FdEventTable.asIndex p.1]? = some p.2

variable {r : Requests κ} {fds : List Int32} {fd : Int32}

theorem Recorded.init : Recorded [] (⟨.new, []⟩ : Requests κ) :=
  ⟨FdEventTable.numbered_new, rfl, by simp⟩

theorem Recorded.step (hI : Recorded fds r) (h : 0 ≤ fd.toInt) (hle : fd.toInt ≤ 2 ^ 30) :
    ∃ r', requestStep r fd = some r' ∧ Recorded (fds ++ [fd]) r' := by
  obtain ⟨a, hget, ha⟩ := hI.numbered.getFdEvent h hle
  refine ⟨⟨r.table.reserved fd, r.returned ++ [(fd, a)]⟩, ?_, hI.numbered.reserved fd, ?_, ?_⟩
  · rw [requestStep, hget]
  · rw [List.map_append, hI.all]
    rfl
  · intro p hp
    rcases List.mem_append.mp hp with hp | hp
    · obtain ⟨hpos, hp⟩ := hI.pointer p hp
      exact ⟨hpos, FdEventTable.getElem?_reserved fd hp⟩
    · obtain rfl := List.mem_singleton.mp hp
      exact ⟨h, ha⟩

theorem Recorded.answered (hI : Recorded fds r) : Answered fds r where
  numbered := hI.numbered.getFd
  all := hI.all
  inRange := by
    intro p hp
    obtain ⟨hpos, hp⟩ := hI.pointer p hp
    obtain ⟨a, ev, ha, hev, hfd⟩ := hI.numbered.getFd _ (List.getElem?_eq_some_iff.mp hp).1
    obtain rfl := Option.some.inj (hp.symm.trans ha)
    exact ⟨ev, hp, hev, by rw [hfd, FdEventTable.asIndex_of_nonneg hpos]⟩
  same := by
    intro p hp q hq hpq
    have hp := (hI.pointer p hp).2
    rw [hpq] at hp
    exact Option.some.inj (hp.symm.trans (hI.pointer q hq).2)

/-- **Every run of calls is answered**, for descriptors up to `2 ^ 30`. -/
theorem requests_same (fds : List Int32) (hfds : ∀ fd ∈ fds, 0 ≤ fd.toInt ∧ fd.toInt ≤ 2 ^ 30) :
    ∃ r : Requests κ, exec requestStep ⟨.new, []⟩ fds = some r ∧ Answered fds r := by
  suffices hall : ∃ r : Requests κ, exec requestStep ⟨.new, []⟩ fds = some r ∧ Recorded fds r by
    obtain ⟨r, hrun, hI⟩ := hall
    exact ⟨r, hrun, hI.answered⟩
  induction fds using List.reverseRecOn with
  | nil => exact ⟨_, rfl, .init⟩
  | append_singleton fds fd ih =>
    obtain ⟨r, hrun, hI⟩ := ih fun fd' hfd' => hfds fd' (List.mem_append_left _ hfd')
    obtain ⟨hpos, hle⟩ := hfds fd (List.mem_append_right _ (List.mem_singleton_self fd))
    obtain ⟨r', hstep, hI'⟩ := hI.step hpos hle
    exact ⟨r', exec_snoc.mpr ⟨r, hrun, hstep⟩, hI'⟩

/-- A descriptor beyond the first 128 is asked for twice. -/
theorem requests_same_twice : ∃ r : Requests Unit,
    exec requestStep ⟨.new, []⟩ [200, 3, 200] = some r ∧ Answered [200, 3, 200] r :=
  requests_same [200, 3, 200] (by simp)

end TalonRPC.Net
