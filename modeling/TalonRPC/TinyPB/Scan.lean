import TalonRPC.TinyPB.Decode

/-!
# The scanner, read off the bytes

What the inner loop of `decode` finds, as properties of the vector: a frame closes at the first
start marker whose declared end lies below the write index and holds an end marker. The accesses
stay between two bounds when, up to that marker, every length field and every candidate end
marker does.

## Main definitions

* `int32At`, `endIndex`: the number at an index, and the end a start marker declares
* `Starts`, `Closes`: a start marker whose length is read, and one that closes a frame
* `Scannable`: the bounds of the scan, read off the bytes

## Main results

* `scan_all_iff`: the accesses of a scan stay within bounds exactly if it is `Scannable`
* `scan_finds`: what a scan within the vector finds
-/

namespace TalonRPC.TinyPBCoder

open Bytes Machine TinyPBProtocol

/-- The number in the four bytes from index `k` on. -/
def int32At (tmp : ByteString) (k : ℕ) : Int32 := ofBe32 (slice tmp k 4)

/-- The end index a start marker at `i` declares. -/
def endIndex (tmp : ByteString) (i : ℕ) : ℤ := wrap32 (i + (int32At tmp (i + 1)).toInt - 1)

/-- The frame that starts at `i`. -/
def frameAt (tmp : ByteString) (i : ℕ) : Frame := ⟨i, endIndex tmp i, int32At tmp (i + 1)⟩

/-- A start marker behind which a length is read. -/
def Starts (tmp : ByteString) (w i : ℕ) : Prop := tmp[i]? = some pbStart ∧ i + 1 < w

/-- A start marker whose frame closes: its end lies below `w` and holds an end marker. -/
def Closes (tmp : ByteString) (w i : ℕ) : Prop :=
  Starts tmp w i ∧ endIndex tmp i < w ∧ 0 ≤ endIndex tmp i ∧
    tmp[(endIndex tmp i).toNat]? = some pbEnd

instance (tmp : ByteString) (w i : ℕ) : Decidable (Starts tmp w i) :=
  inferInstanceAs (Decidable (_ ∧ _))

instance (tmp : ByteString) (w i : ℕ) : Decidable (Closes tmp w i) :=
  inferInstanceAs (Decidable (_ ∧ _ ∧ _ ∧ _))

/-- Up to the first frame that closes, the length behind every start marker from `i` on lies below
`hi`, and an end it declares below the write index `w` lies at `lo` or above. -/
def Scannable (tmp : ByteString) (w : ℕ) (lo hi : ℤ) (i : ℕ) : Prop :=
  ∀ k, i ≤ k → (∀ k', i ≤ k' → k' < k → ¬ Closes tmp w k') → Starts tmp w k →
    (k + 5 : ℤ) ≤ hi ∧ (endIndex tmp k < w → lo ≤ endIndex tmp k)

/-- No length is read behind the write index. -/
instance (tmp : ByteString) (w : ℕ) (lo hi : ℤ) (i : ℕ) : Decidable (Scannable tmp w lo hi i) :=
  decidable_of_iff
    (∀ k < w, (i ≤ k ∧ Starts tmp w k ∧ ∀ k' < k, i ≤ k' → ¬ Closes tmp w k') →
      (k + 5 : ℤ) ≤ hi ∧ (endIndex tmp k < w → lo ≤ endIndex tmp k))
    ⟨fun h k hik hbefore hs =>
        h k (Nat.lt_of_succ_lt hs.2) ⟨hik, hs, fun k' hlt hle => hbefore k' hle hlt⟩,
      fun h k _ ⟨hik, hs, hbefore⟩ => h k hik (fun k' hle hlt => hbefore k' hlt hle) hs⟩

variable {tmp : ByteString} {w : ℕ} {lo hi : ℤ} {room : ℕ} {i n k : ℕ} {f : Frame}

/-! ## Loads -/

theorem load_ok {index size : ℤ} (h : (Access.load index size).Within 0 tmp.length 0) :
    (load tmp index size).result = .ok (slice tmp index.toNat size.toNat) := by
  rw [load, access, if_pos h]
  rfl

@[simp] theorem load_all {P : Access → Prop} {index size : ℤ} :
    (load tmp index size).All P ↔ P (.load index size) := by
  simp [load, access]

theorem slice_one (h : i < tmp.length) : slice tmp i 1 = [tmp[i]] := by
  rw [slice, List.drop_eq_getElem_cons h]
  rfl

theorem load_one (h : i < tmp.length) : (load tmp i 1).result = .ok [tmp[i]] := by
  rw [load_ok ⟨by decide, .inr ⟨by omega, by omega⟩⟩]
  simp [slice_one h]

theorem getInt32_ok (h : k + 4 ≤ tmp.length) :
    (getInt32FromNetByte tmp k).result = .ok (int32At tmp k) := by
  rw [getInt32FromNetByte,
    Traced.result_bind_of_ok (load_ok ⟨by decide, .inr ⟨by omega, by omega⟩⟩)]
  rfl

@[simp] theorem getInt32_all {P : Access → Prop} {index : ℤ} :
    (getInt32FromNetByte tmp index).All P ↔ P (.load index 4) := by
  simp [getInt32FromNetByte, Traced.all_bind]

/-! ## One step of the scan -/

theorem starts_iff (h : i < tmp.length) :
    ([tmp[i]] = [pbStart] ∧ i + 1 < w) ↔ Starts tmp w i := by
  rw [Starts, List.getElem?_eq_getElem h]
  simp

/-- The part of a scan behind a start marker. -/
def scanStart (tmp : ByteString) (w n i : ℕ) : Exec (Option Frame) := do
  let pkLen ← getInt32FromNetByte tmp (i + 1)
  let j := wrap32 (i + pkLen.toInt - 1)
  if w ≤ j then scan tmp w n (i + 1)
  else do
    let c ← load tmp j 1
    if c = [pbEnd] then pure (some ⟨i, j, pkLen⟩) else scan tmp w n (i + 1)

theorem scan_succ (w n : ℕ) (h : i < tmp.length) :
    (scan tmp w (n + 1) i).result =
        (if Starts tmp w i then scanStart tmp w n i else scan tmp w n (i + 1)).result ∧
      ∀ P : Access → Prop, (scan tmp w (n + 1) i).All P ↔ P (.load i 1) ∧
        (if Starts tmp w i then scanStart tmp w n i else scan tmp w n (i + 1)).All P := by
  -- The condition on the byte that was loaded is one on the vector.
  have hscan : scan tmp w (n + 1) i = load tmp i 1 >>= fun c =>
      if c = [pbStart] ∧ i + 1 < w then scanStart tmp w n i else scan tmp w n (i + 1) := rfl
  have hif : (if [tmp[i]] = [pbStart] ∧ i + 1 < w then scanStart tmp w n i
      else scan tmp w n (i + 1)) =
      if Starts tmp w i then scanStart tmp w n i else scan tmp w n (i + 1) :=
    if_congr (starts_iff h) rfl rfl
  constructor
  · rw [hscan, Traced.result_bind_of_ok (load_one h), hif]
  · intro P
    rw [hscan, Traced.all_bind, load_all, load_one h]
    simp only [Except.ok.injEq, forall_eq', hif]

/-- What follows a length field that lies in the vector. -/
theorem scanStart_of_le (w n : ℕ) (h : i + 5 ≤ tmp.length) :
    (scanStart tmp w n i).result =
        (if (w : ℤ) ≤ endIndex tmp i then scan tmp w n (i + 1)
          else load tmp (endIndex tmp i) 1 >>= fun c =>
            if c = [pbEnd] then pure (some (frameAt tmp i)) else scan tmp w n (i + 1)).result ∧
      ∀ P : Access → Prop, (scanStart tmp w n i).All P ↔ P (.load (i + 1) 4) ∧
        (if (w : ℤ) ≤ endIndex tmp i then scan tmp w n (i + 1)
          else load tmp (endIndex tmp i) 1 >>= fun c =>
            if c = [pbEnd] then pure (some (frameAt tmp i)) else scan tmp w n (i + 1)).All P := by
  have hlen : (getInt32FromNetByte tmp (i + 1)).result = .ok (int32At tmp (i + 1)) := by
    have := getInt32_ok (k := i + 1) h
    exact_mod_cast this
  constructor
  · rw [scanStart, Traced.result_bind_of_ok hlen]
    rfl
  · intro P
    rw [scanStart, Traced.all_bind, getInt32_all, hlen]
    simp only [Except.ok.injEq, forall_eq']
    rfl

theorem not_closes_of_not_starts (h : ¬ Starts tmp w i) : ¬ Closes tmp w i := by
  intro hc
  exact h hc.1

theorem not_closes_of_le (h : (w : ℤ) ≤ endIndex tmp i) : ¬ Closes tmp w i := by
  intro hc
  have := hc.2.1
  omega

/-- The candidate end marker, where its index lies in the vector. -/
theorem load_endIndex (hs : Starts tmp w i) (hlt : endIndex tmp i < w) (h0 : 0 ≤ endIndex tmp i)
    (hw : w ≤ tmp.length) :
    ∃ c, (load tmp (endIndex tmp i) 1).result = .ok c ∧ (c = [pbEnd] ↔ Closes tmp w i) := by
  obtain ⟨j, hj⟩ := Int.eq_ofNat_of_zero_le h0
  have hlen : j < tmp.length := by omega
  refine ⟨[tmp[j]], ?_, ?_⟩
  · rw [hj]
    exact load_one hlen
  · rw [Closes, hj, Int.toNat_natCast, List.getElem?_eq_getElem hlen]
    simp only [List.cons.injEq, and_true, Option.some.injEq]
    constructor
    · intro he
      exact ⟨hs, by omega, by omega, he⟩
    · intro h
      exact h.2.2.2

/-- The bounds of the step of a scan at `i`. -/
def StepFits (tmp : ByteString) (w : ℕ) (lo hi : ℤ) (i : ℕ) : Prop :=
  Starts tmp w i → (i + 5 : ℤ) ≤ hi ∧ (endIndex tmp i < w → lo ≤ endIndex tmp i)

theorem within_load_iff {index size : ℤ} (h : 0 < size) :
    (Access.load index size).Within lo hi room ↔ lo ≤ index ∧ index + size ≤ hi := by
  simp only [Access.Within]
  omega

/-- The step behind a start marker. -/
theorem scanStart_step (n room : ℕ) (hi_le : hi ≤ tmp.length) (hlo : 0 ≤ lo) (hw : w ≤ hi)
    (hlo_i : lo ≤ i) (hs : Starts tmp w i) :
    ((scanStart tmp w n i).All (Access.Within lo hi room) ↔ StepFits tmp w lo hi i ∧
        (¬ Closes tmp w i → (scan tmp w n (i + 1)).All (Access.Within lo hi room))) ∧
      (StepFits tmp w lo hi i → (scanStart tmp w n i).result =
        if Closes tmp w i then .ok (some (frameAt tmp i)) else (scan tmp w n (i + 1)).result) := by
  have hload4 : (Access.load (i + 1) 4).Within lo hi room ↔ (i + 5 : ℤ) ≤ hi := by
    rw [within_load_iff (by decide)]
    omega
  by_cases h5 : (i + 5 : ℤ) ≤ hi
  · obtain ⟨hres, hall⟩ := scanStart_of_le w n (show i + 5 ≤ tmp.length by omega)
    rw [hall, hload4, hres]
    by_cases hend : (w : ℤ) ≤ endIndex tmp i
    · -- The frame is not complete.
      have hc := not_closes_of_le hend
      have hfits : StepFits tmp w lo hi i := fun _ => ⟨h5, fun hlt => by omega⟩
      rw [if_pos hend, if_neg hc]
      simp [h5, hfits, hc]
    · rw [if_neg hend, Traced.all_bind, load_all]
      by_cases hj : lo ≤ endIndex tmp i
      · have hfits : StepFits tmp w lo hi i := fun _ => ⟨h5, fun _ => hj⟩
        have hload1 : (Access.load (endIndex tmp i) 1).Within lo hi room :=
          (within_load_iff (by decide)).mpr ⟨hj, by omega⟩
        obtain ⟨c, hc, hcl⟩ := load_endIndex hs (by omega) (by omega) (by omega)
        rw [Traced.result_bind_of_ok hc, hc]
        by_cases hclose : Closes tmp w i
        · simp [h5, hfits, hload1, hclose, hcl.mpr hclose]
        · simp [h5, hfits, hload1, hclose, mt hcl.mp hclose]
      · -- The candidate end lies below the lower bound: its load is the access that breaks it.
        have hfits : ¬ StepFits tmp w lo hi i := fun h => hj ((h hs).2 (by omega))
        have hload1 : ¬ (Access.load (endIndex tmp i) 1).Within lo hi room := fun h =>
          hj ((within_load_iff (by decide)).mp h).1
        simp [hfits, hload1]
  · -- The length field lies across the upper bound.
    have hfits : ¬ StepFits tmp w lo hi i := fun h => h5 (h hs).1
    have hnot : ¬ (scanStart tmp w n i).All (Access.Within lo hi room) := by
      rw [scanStart, Traced.all_bind, getInt32_all, hload4]
      exact fun h => h5 h.1
    simp [hfits, hnot]

/-- **One step of the scan**: its accesses, and what it finds. -/
theorem scan_step (room : ℕ) (hi_le : hi ≤ tmp.length) (hlo : 0 ≤ lo) (hw : w ≤ hi) (hlo_i : lo ≤ i)
    (hn : i + (n + 1) = w) :
    ((scan tmp w (n + 1) i).All (Access.Within lo hi room) ↔ StepFits tmp w lo hi i ∧
        (¬ Closes tmp w i → (scan tmp w n (i + 1)).All (Access.Within lo hi room))) ∧
      (StepFits tmp w lo hi i → (scan tmp w (n + 1) i).result =
        if Closes tmp w i then .ok (some (frameAt tmp i)) else (scan tmp w n (i + 1)).result) := by
  obtain ⟨hres, hall⟩ := scan_succ w n (show i < tmp.length by omega)
  have hload : (Access.load i 1).Within lo hi room :=
    (within_load_iff (by decide)).mpr ⟨hlo_i, by omega⟩
  rw [hall, hres]
  by_cases hs : Starts tmp w i
  · obtain ⟨hstep, hfinds⟩ := scanStart_step n room hi_le hlo hw hlo_i hs
    rw [if_pos hs]
    exact ⟨by rw [hstep]; simp [hload], hfinds⟩
  · have hc := not_closes_of_not_starts hs
    have hfits : StepFits tmp w lo hi i := fun h => absurd h hs
    rw [if_neg hs, if_neg hc]
    simp [hload, hfits, hc]

/-! ## The whole scan -/

/-- What a scan from `i` on finds: the first frame that closes, if there is one. -/
def Finds (tmp : ByteString) (w i : ℕ) : Option Frame → Prop
  | none => ∀ k, i ≤ k → ¬ Closes tmp w k
  | some f => ∃ k, i ≤ k ∧ Closes tmp w k ∧ (∀ k', i ≤ k' → k' < k → ¬ Closes tmp w k') ∧
      f = frameAt tmp k

theorem finds_of_closes (h : Closes tmp w i) : Finds tmp w i (some (frameAt tmp i)) :=
  ⟨i, le_rfl, h, fun k' h1 h2 => absurd h2 (by omega), rfl⟩

/-- What holds from `i + 1` on, and at `i`, holds from `i` on. -/
theorem forall_ge_of_succ {P : ℕ → Prop} (h0 : P i) (h : ∀ k, i + 1 ≤ k → P k) (k : ℕ)
    (hk : i ≤ k) : P k := by
  rcases Nat.eq_or_lt_of_le hk with rfl | hk
  · exact h0
  · exact h k hk

theorem Finds.of_succ (hc : ¬ Closes tmp w i) {r : Option Frame} (h : Finds tmp w (i + 1) r) :
    Finds tmp w i r := by
  cases r with
  | none => exact forall_ge_of_succ hc h
  | some f =>
    obtain ⟨k, hk, hcl, hbefore, hf⟩ := h
    refine ⟨k, by omega, hcl, ?_, hf⟩
    exact forall_ge_of_succ (P := fun k' => k' < k → ¬ Closes tmp w k') (fun _ => hc) hbefore

theorem Finds.unique {r r' : Option Frame} (h : Finds tmp w i r) (h' : Finds tmp w i r') :
    r = r' := by
  cases r with
  | none =>
    cases r' with
    | none => rfl
    | some f' =>
      obtain ⟨k, hk, hcl, -⟩ := h'
      exact absurd hcl (h k hk)
  | some f =>
    obtain ⟨k, hk, hcl, hbefore, rfl⟩ := h
    cases r' with
    | none => exact absurd hcl (h' k hk)
    | some f' =>
      obtain ⟨k', hk', hcl', hbefore', rfl⟩ := h'
      -- Neither of the two lies before the other.
      have hle : ¬ k < k' := fun hlt => hbefore' k hk hlt hcl
      have hge : ¬ k' < k := fun hlt => hbefore k' hk' hlt hcl'
      rw [show k = k' by omega]

theorem scannable_end : Scannable tmp w lo hi w := by
  intro k hk _ hs
  have := hs.2
  omega

theorem scannable_succ : Scannable tmp w lo hi i ↔
    StepFits tmp w lo hi i ∧ (¬ Closes tmp w i → Scannable tmp w lo hi (i + 1)) := by
  constructor
  · intro h
    refine ⟨h i le_rfl (fun k' h1 h2 => absurd h2 (by omega)), ?_⟩
    intro hc k hk hbefore hs
    exact h k (by omega)
      (forall_ge_of_succ (P := fun k' => k' < k → ¬ Closes tmp w k') (fun _ => hc) hbefore) hs
  · rintro ⟨h0, hrest⟩ k hk hbefore hs
    rcases Nat.eq_or_lt_of_le hk with rfl | hk
    · exact h0 hs
    · exact hrest (hbefore i le_rfl hk) k hk (fun k' h1 h2 => hbefore k' (by omega) h2) hs

/-- **The accesses of a scan** stay between `lo` and `hi` exactly if it is `Scannable`. -/
theorem scan_all_iff (hi_le : hi ≤ tmp.length) (hlo : 0 ≤ lo) (hw : w ≤ hi) (hlo_i : lo ≤ i)
    (hn : i + n = w) :
    (scan tmp w n i).All (Access.Within lo hi room) ↔ Scannable tmp w lo hi i := by
  -- On the bytes that are left: a step adds its own bounds to those of the rest of the scan.
  induction n generalizing i with
  | zero =>
    obtain rfl : i = w := by omega
    simp [scan, scannable_end]
  | succ n ih =>
    rw [(scan_step room hi_le hlo hw hlo_i hn).1, scannable_succ,
      ih (by push_cast; omega) (by omega)]

/-- **What a scan within the vector finds**: the first frame that closes. -/
theorem scan_finds (hw : w ≤ tmp.length) (hn : i + n = w)
    (h : Scannable tmp w 0 tmp.length i) :
    ∃ r, (scan tmp w n i).result = .ok r ∧ Finds tmp w i r := by
  induction n generalizing i with
  | zero =>
    obtain rfl : i = w := by omega
    refine ⟨none, rfl, fun k hk hc => ?_⟩
    have := hc.1.2
    omega
  | succ n ih =>
    obtain ⟨hfits, hrest⟩ := scannable_succ.mp h
    rw [(scan_step 0 le_rfl le_rfl (by omega) (by omega) hn).2 hfits]
    by_cases hc : Closes tmp w i
    · exact ⟨_, if_pos hc, finds_of_closes hc⟩
    · obtain ⟨r, hr, hfinds⟩ := ih (by omega) (hrest hc)
      exact ⟨r, (if_neg hc).trans hr, hfinds.of_succ hc⟩

theorem Scannable.mono {lo' hi' : ℤ} (h : Scannable tmp w lo hi i) (hlo : lo' ≤ lo)
    (hhi : hi ≤ hi') : Scannable tmp w lo' hi' i := by
  intro k hk hbefore hs
  obtain ⟨hlength, hend⟩ := h k hk hbefore hs
  exact ⟨hlength.trans hhi, fun hlt => hlo.trans (hend hlt)⟩

/-! ## The scan is guarded by its accesses -/

theorem guarded_access {α : Type} (a : Access) (r : α) (fault : Fault) :
    Traced.Guarded (Access.Within 0 tmp.length 0) (access tmp a r fault) := by
  unfold access Traced.Guarded
  split_ifs with h <;> simp [h]

theorem guarded_load (index size : ℤ) :
    Traced.Guarded (Access.Within 0 tmp.length 0) (load tmp index size) :=
  guarded_access _ _ _

theorem guarded_getInt32 (index : ℤ) :
    Traced.Guarded (Access.Within 0 tmp.length 0) (getInt32FromNetByte tmp index) :=
  (guarded_load _ _).bind fun _ => .pure _

theorem guarded_scan : Traced.Guarded (Access.Within 0 tmp.length 0) (scan tmp w n i) := by
  induction n generalizing i with
  | zero => exact .pure _
  | succ n ih =>
    refine (guarded_load _ _).bind fun c => .ite ?_ ih
    refine (guarded_getInt32 _).bind fun pkLen => .ite ih ?_
    exact (guarded_load _ _).bind fun c => .ite (.pure _) ih

end TalonRPC.TinyPBCoder
