import CmTrace.EventLog.AnalysisPages

/-!
# Rows within a budget

The rows selected are as many as the budget allows while the late fields are at
their widest.  The size then settles: writing a smaller number makes the response
shorter by the digits the number lost, and it can lose one only once.
-/

namespace CmTrace
namespace EventLog

open Text

section

variable {Row : Type} (write : Row → Text)

def weight (rows : List Row) : Nat := (rows.map fun row => byteLen (write row) + 1).sum

@[simp] theorem weight_nil : weight write [] = 0 := rfl

@[simp] theorem weight_cons (row : Row) (rows : List Row) :
    weight write (row :: rows) = byteLen (write row) + 1 + weight write rows := by
  rw [weight, List.map_cons, List.sum_cons, weight]

theorem byteLen_rows (rows : List Row) :
    byteLen (jsonArray (rows.map write)) = 2 + (weight write rows - 1) := by
  rw [byteLen_jsonArray, List.map_map]
  rfl

theorem selectFrom_spec {emptyEnvelopeBytes maxRowBytes : Nat} {rowLabel : Text} :
    ∀ (rows : List Row) (serializedRowBytes selected : Nat),
      (∀ row ∈ rows, byteLen (write row) ≤ maxRowBytes) →
        ∃ k, selectFrom write emptyEnvelopeBytes maxRowBytes rowLabel rows serializedRowBytes selected =
            .ok (selected + k) ∧ k ≤ rows.length ∧ (selected = 0 → rows ≠ [] → 0 < k) ∧
          (k = 0 ∨ (k = 1 ∧ selected = 0) ∨
            emptyEnvelopeBytes + (serializedRowBytes + if 0 < selected then 1 else 0) +
              weight write (rows.take k) ≤ maxAnalysisTimelinePageBytes + 1) ∧
          ∀ j, k < j → j ≤ rows.length → maxAnalysisTimelinePageBytes + 1 <
            emptyEnvelopeBytes + (serializedRowBytes + if 0 < selected then 1 else 0) +
              weight write (rows.take j) := by
  intro rows
  induction rows with
  | nil =>
    intro serializedRowBytes selected _
    refine ⟨0, rfl, Nat.le_refl _, fun _ h => absurd rfl h, .inl rfl, ?_⟩
    intro j hj hle
    rw [List.length_nil] at hle
    omega
  | cons row rows ih =>
    intro serializedRowBytes selected hrows
    have hrow := hrows row List.mem_cons_self
    rw [selectFrom]
    simp only [if_neg (Nat.not_lt.mpr hrow)]
    by_cases hover : 0 < selected ∧ maxAnalysisTimelinePageBytes < emptyEnvelopeBytes +
        serializedRowBytes + (if 0 < selected then 1 else 0) + byteLen (write row)
    · rw [if_pos hover]
      refine ⟨0, rfl, Nat.zero_le _, fun h => absurd h (by omega), .inl rfl, ?_⟩
      intro j hj _
      obtain ⟨j, rfl⟩ := Nat.exists_eq_add_of_lt hj
      rw [Nat.zero_add, List.take_succ_cons, weight_cons]
      omega
    · rw [if_neg hover]
      obtain ⟨k, hselect, hle, -, hfits, hlongest⟩ := ih
        (serializedRowBytes + (if 0 < selected then 1 else 0) + byteLen (write row)) (selected + 1)
        fun other hother => hrows other (List.mem_cons_of_mem _ hother)
      rw [if_pos (Nat.succ_pos _)] at hfits hlongest
      refine ⟨k + 1, ?_, Nat.succ_le_succ hle, fun _ _ => Nat.succ_pos _, ?_, ?_⟩
      · rw [hselect, Nat.add_assoc, Nat.add_comm 1 k]
      · rw [List.take_succ_cons, weight_cons]
        rcases hfits with rfl | ⟨-, hnever⟩ | hfits
        · rw [List.take_zero, weight_nil]
          by_cases hfirst : selected = 0
          · exact .inr (.inl ⟨rfl, hfirst⟩)
          · right; right
            have hroom := not_and.mp hover (Nat.pos_of_ne_zero hfirst)
            omega
        · exact absurd hnever (Nat.succ_ne_zero _)
        · right; right
          omega
      · intro j hj hjle
        cases j with
        | zero => omega
        | succ j =>
          rw [List.length_cons] at hjle
          have := hlongest j (by omega) (by omega)
          rw [List.take_succ_cons, weight_cons]
          omega

end

/-! ## The size of a response -/

theorem digits_u64Max : digits u64Max = 20 := by
  have hle : digits u64Max ≤ 20 := (digits_le_iff (by decide)).mpr (by decide)
  have hgt : ¬ digits u64Max ≤ 19 := fun h => absurd ((digits_le_iff (by decide)).mp h) (by decide)
  omega

/-- A number that loses digits is just below a power of ten, and so far above the
next one that it loses no more. -/
theorem digits_stable {size : Nat} (hsize : 99 ≤ size)
    (hlost : digits (size + digits (size + 20)) ≠ digits (size + 20)) (hle : digits (size + 20) ≤ 20) :
    digits (size + digits (size + digits (size + 20))) =
      digits (size + digits (size + 20)) := by
  have hfirst : digits (size + digits (size + 20)) ≤ digits (size + 20) := digits_mono (by omega)
  have hsecond : digits (size + digits (size + digits (size + 20))) ≤
      digits (size + digits (size + 20)) := digits_mono (by omega)
  have hthree : ¬ digits (size + digits (size + 20)) ≤ 2 := by
    have hpos := digits_pos (size + 20)
    rw [digits_le_iff (by decide)]
    omega
  generalize hk : digits (size + digits (size + 20)) = k at *
  have hbig : ¬ size + 20 < 10 ^ k := fun h => by
    have := (digits_le_iff (by omega)).mpr h
    omega
  have hlow : ¬ digits (size + k) ≤ k - 1 := by
    rw [digits_le_iff (by omega)]
    obtain ⟨j, rfl⟩ : ∃ j, k = j + 3 := ⟨k - 3, by omega⟩
    have hpow : 1 ≤ 10 ^ j := Nat.one_le_pow _ _ (by decide)
    have hnext : 10 ^ (j + 3) = 1000 * 10 ^ j := by rw [Nat.pow_add, Nat.mul_comm]
    have hless : 10 ^ (j + 3 - 1) = 100 * 10 ^ j := by
      rw [Nat.add_sub_assoc (by decide), Nat.pow_add, Nat.mul_comm]
    omega
  omega

theorem converge_spec {response : Nat → Text} {size : Nat}
    (hresponse : ∀ n, byteLen (response n) = size + digits n) (hsize : 99 ≤ size)
    (hsmall : size + 20 < 10 ^ 20) :
    ∃ n, convergeSerializedBytes response 4 u64Max = .ok n ∧ n = size + digits n := by
  have hstep : ∀ rounds current, current ≠ size + digits current →
      convergeSerializedBytes response (rounds + 1) current =
        convergeSerializedBytes response rounds (size + digits current) := by
    intro rounds current hne
    rw [convergeSerializedBytes]
    simp only [hresponse, if_neg hne]
  have hstop : ∀ rounds current, current = size + digits current →
      convergeSerializedBytes response (rounds + 1) current = .ok current := by
    intro rounds current heq
    rw [convergeSerializedBytes]
    simp only [hresponse]
    rw [if_pos heq]
  have hdigits : digits (size + 20) ≤ 20 := (digits_le_iff (by decide)).mpr hsmall
  by_cases h0 : u64Max = size + digits u64Max
  · exact ⟨_, hstop 3 _ h0, h0⟩
  rw [hstep 3 _ h0, digits_u64Max]
  by_cases h1 : size + 20 = size + digits (size + 20)
  · exact ⟨_, hstop 2 _ h1, h1⟩
  rw [hstep 2 _ h1]
  by_cases h2 : size + digits (size + 20) = size + digits (size + digits (size + 20))
  · exact ⟨_, hstop 1 _ h2, h2⟩
  rw [hstep 1 _ h2]
  have h3 := digits_stable hsize (fun h => h2 (by rw [h])) hdigits
  have hlast : size + digits (size + digits (size + 20)) =
      size + digits (size + digits (size + digits (size + 20))) := by rw [h3]
  exact ⟨_, hstop 0 _ hlast, hlast⟩

theorem digits_settled {size n : Nat} (h : n = size + digits n)
    (hsize : size ≤ maxAnalysisTimelinePageBytes) : digits n ≤ 7 := by
  have hlarge : ∀ j, j + 8 + 8388608 < 10 ^ (j + 7) := by
    intro j
    induction j with
    | zero => decide
    | succ j ih =>
      have hnext : 10 ^ (j + 1 + 7) = 10 ^ (j + 7) * 10 := by rw [← Nat.pow_succ, Nat.add_right_comm]
      omega
  have hbudget : maxAnalysisTimelinePageBytes = 8388608 := rfl
  by_contra hmore
  obtain ⟨j, hj⟩ := Nat.exists_eq_add_of_le' (Nat.not_le.mp hmore)
  have hlow : ¬ digits n ≤ j + 7 := by omega
  rw [digits_le_iff (by omega)] at hlow
  have := hlarge j
  omega

theorem size_le_of_size_le {size m n : Nat} (hm : m = size + digits m)
    (hfits : m ≤ maxAnalysisTimelinePageBytes) (hn : n = size + digits n) :
    n ≤ maxAnalysisTimelinePageBytes := by
  have hbudget : maxAnalysisTimelinePageBytes = 8388608 := rfl
  have hm7 := digits_settled hm (by omega)
  have hn7 := digits_settled hn (by omega)
  by_cases hsame : digits m = 7
  · omega
  · have hsmall : m < 10 ^ 6 := (digits_le_iff (by decide)).mp (by omega)
    omega

/-! ## Responses -/

/-- Rows fit a response with its late fields at their widest. -/
def FitsReserved (reservedBytes weight : Nat) : Prop :=
  reservedBytes + (weight - 1) ≤ maxAnalysisTimelinePageBytes

section

variable {Row Response : Type} {write : Row → Text} {json : Response → Text} {candidates : List Row}
  {size widest maxRowBytes : Nat} {late : Nat → Nat} {response : Nat → Nat → Response}

theorem fillResponse_spec (hrows : ∀ row ∈ candidates, byteLen (write row) ≤ maxRowBytes)
    (hresponse : ∀ k n, byteLen (json (response k n)) =
      size + (weight write (candidates.take k) - 1) + late k + digits n)
    (hlate : ∀ k, late k ≤ widest) (hsize : 99 ≤ size)
    (hnone : FitsReserved (size + widest + 20) 0)
    (hone : candidates ≠ [] →
      ∃ n, n = byteLen (json (response 1 n)) ∧ n ≤ maxAnalysisTimelinePageBytes)
    (rowLabel resource : Text) :
    ∃ k n, fillResponse write json candidates (size + widest + 20) maxRowBytes rowLabel resource
        response = .ok (response k n) ∧
      k ≤ candidates.length ∧ (candidates ≠ [] → 0 < k) ∧
      n = byteLen (json (response k n)) ∧ n ≤ maxAnalysisTimelinePageBytes ∧
      (k ≤ 1 ∨ FitsReserved (size + widest + 20) (weight write (candidates.take k))) ∧
      ∀ j, k < j → j ≤ candidates.length →
        ¬ FitsReserved (size + widest + 20) (weight write (candidates.take j)) := by
  obtain ⟨k, hselect, hle, hpos, hfits, hlongest⟩ := @selectFrom_spec _ write
    (size + widest + 20) maxRowBytes rowLabel candidates 0 0 hrows
  simp only [Nat.lt_irrefl, if_false, Nat.zero_add, Nat.add_zero] at hfits hlongest hselect
  have hbudget : maxAnalysisTimelinePageBytes = 8388608 := rfl
  have hpow : (10 : Nat) ^ 20 = 100000000000000000000 := by norm_num
  rw [FitsReserved] at hnone
  have hkfits : k ≤ 1 ∨ FitsReserved (size + widest + 20) (weight write (candidates.take k)) := by
    rw [FitsReserved]
    rcases hfits with h | ⟨h, -⟩ | h
    · exact .inl (by omega)
    · exact .inl (by omega)
    · exact .inr (by omega)
  have hlatek := hlate k
  -- the size of the response with as many rows as are selected
  have hsmall : (∃ m, m = byteLen (json (response k m)) ∧ m ≤ maxAnalysisTimelinePageBytes) ∨
      FitsReserved (size + widest + 20) (weight write (candidates.take k)) := by
    rcases hkfits with hk | hk
    · by_cases hcandidates : candidates = []
      · right
        rw [hcandidates, List.take_nil, weight_nil]
        exact hnone
      · have hk1 : k = 1 := by
          have := hpos rfl hcandidates
          omega
        rw [hk1]
        exact .inl (hone hcandidates)
    · exact .inr hk
  have hbound : size + (weight write (candidates.take k) - 1) + late k ≤
      maxAnalysisTimelinePageBytes := by
    rcases hsmall with ⟨m, hm, hmle⟩ | hk
    · rw [hresponse] at hm
      omega
    · rw [FitsReserved] at hk
      omega
  obtain ⟨n, hconverge, hn⟩ := @converge_spec (fun n => json (response k n))
    (size + (weight write (candidates.take k) - 1) + late k) (hresponse k) (by omega) (by omega)
  have hfitsn : n ≤ maxAnalysisTimelinePageBytes := by
    rcases hsmall with ⟨m, hm, hmle⟩ | hk
    · rw [hresponse] at hm
      exact size_le_of_size_le hm hmle hn
    · rw [FitsReserved] at hk
      have hdigits := digits_settled hn hbound
      omega
  refine ⟨k, n, ?_, hle, hpos rfl, ?_, hfitsn, hkfits, ?_⟩
  · rw [fillResponse, selectBoundedPrefix, hselect]
    simp only [settleSerializedBytes, hconverge, if_neg (Nat.not_lt.mpr hfitsn)]
  · rw [hresponse]
    exact hn
  · intro j hj hjle hjfits
    rw [FitsReserved] at hjfits
    have := hlongest j hj hjle
    omega

theorem fillResponse_small (hrows : ∀ row ∈ candidates, byteLen (write row) ≤ maxRowBytes)
    (hresponse : ∀ k n, byteLen (json (response k n)) =
      size + (weight write (candidates.take k) - 1) + late k + digits n)
    (hlate : ∀ k, late k ≤ widest) (hsize : 99 ≤ size)
    (hsmall : size + widest + 20 + maxRowBytes ≤ maxAnalysisTimelinePageBytes)
    (rowLabel resource : Text) :
    ∃ k n, fillResponse write json candidates (size + widest + 20) maxRowBytes rowLabel resource
        response = .ok (response k n) ∧
      k ≤ candidates.length ∧ (candidates ≠ [] → 0 < k) ∧
      n = byteLen (json (response k n)) ∧ n ≤ maxAnalysisTimelinePageBytes ∧
      FitsReserved (size + widest + 20) (weight write (candidates.take k)) ∧
      ∀ j, k < j → j ≤ candidates.length →
        ¬ FitsReserved (size + widest + 20) (weight write (candidates.take j)) := by
  have hfirst : ∀ k ≤ 1, weight write (candidates.take k) - 1 ≤ maxRowBytes := by
    intro k hk
    cases candidates with
    | nil =>
      rw [List.take_nil, weight_nil]
      exact Nat.zero_le _
    | cons row rest =>
      have hrow := hrows row List.mem_cons_self
      rcases Nat.le_one_iff_eq_zero_or_eq_one.mp hk with rfl | rfl
      · rw [List.take_zero, weight_nil]
        exact Nat.zero_le _
      · rw [List.take_succ_cons, List.take_zero, weight_cons, weight_nil]
        omega
  have hnone : FitsReserved (size + widest + 20) 0 := by
    rw [FitsReserved]
    omega
  have hone : candidates ≠ [] →
      ∃ n, n = byteLen (json (response 1 n)) ∧ n ≤ maxAnalysisTimelinePageBytes := by
    intro _
    have hbudget : maxAnalysisTimelinePageBytes = 8388608 := rfl
    have hpow : (10 : Nat) ^ 20 = 100000000000000000000 := by norm_num
    have hlate1 := hlate 1
    have hrow := hfirst 1 (Nat.le_refl 1)
    obtain ⟨n, -, hn⟩ := @converge_spec (fun n => json (response 1 n))
      (size + (weight write (candidates.take 1) - 1) + late 1) (hresponse 1) (by omega) (by omega)
    have hdigits := digits_settled hn (by omega)
    refine ⟨n, ?_, by omega⟩
    rw [hresponse]
    exact hn
  obtain ⟨k, n, hfill, hle, hpos, hn, hnle, hfits, hlongest⟩ :=
    fillResponse_spec hrows hresponse hlate hsize hnone hone rowLabel resource
  refine ⟨k, n, hfill, hle, hpos, hn, hnle, ?_, hlongest⟩
  rcases hfits with hk | hfits
  · have := hfirst k hk
    rw [FitsReserved]
    omega
  · exact hfits

end

end EventLog
end CmTrace
