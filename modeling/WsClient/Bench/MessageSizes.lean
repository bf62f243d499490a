import WsClient.Latency.Report
import Mathlib.Algebra.Order.Floor.Semifield

/-!
# `benchmark_message_sizes`

A table of round-trip times by payload size. Its columns are computed apart from
`LatencyStats::print_report`, over the same samples; all but the p99 are the same.
-/

namespace WsClient.Bench
open WsClient.Lib WsClient.Latency

/-- `make_payload`. -/
def makePayload (size : ℕ) : List UInt8 :=
  (List.range size).map fun i => UInt8.ofNat ('A'.toNat+i % 26)

/-- The payload sizes of the benchmark. -/
def sizes : List ℕ := [16,64,256,1024,4096,16384]

def kMessagesPerSize : ℕ := 50

/-- A row of the table, the times in microseconds. -/
structure SizeRow where
  size : ℕ
  min : ℚ
  mean : ℚ
  p99 : ℚ
  max : ℚ
  deriving DecidableEq

/-- The row of one size; `none` is an index out of range. -/
def sizeRow (size : ℕ) (stats : LatencyStats) : Option SizeRow := do
  let sorted := sort stats.samplesNs
  let front ← sorted.head?
  let back ← sorted.getLast?
  let sum := sorted.foldl (fun sum s => sum+toDouble s) 0
  let mean := sum/sorted.length/1000
  let p99Idx ← truncate (99/100*(sorted.length-1 : ℕ))
  let p99 ← sorted[p99Idx]?
  return ⟨size,toDouble front/1000,mean,toDouble p99/1000,toDouble back/1000⟩

/-- The samples of one size, where `roundTrip i` is the time from the `i`-th `send_text` to its
answer. -/
def measure (roundTrip : ℕ → Int64) : LatencyStats :=
  (List.range kMessagesPerSize).foldl (fun stats i => stats.recordNs (roundTrip i)) {}

/-- `benchmark_message_sizes`, with every message answered: the rows of its table. -/
def benchmarkMessageSizes (roundTrip : List UInt8 → ℕ → Int64) : Option (List SizeRow) :=
  sizes.mapM fun size => sizeRow size (measure (roundTrip (makePayload size)))

variable {samples sorted : List Int64} {k : ℕ}

theorem floor_rank_99 (n : ℕ) : ⌊rank n 99⌋₊ = 99*(n-1)/100 := by
  have hrank : rank n 99 = ((99*(n-1) : ℕ) : ℚ)/(100 : ℕ) := by
    rw [rank]
    push_cast
    ring
  rw [hrank,Nat.floor_div_eq_div]

/-- The rank of the p99 is an index for every hundredth number of samples. -/
theorem rank_99_eq_floor_iff {n : ℕ} (hn : 0 < n) :
    rank n 99 = ⌊rank n 99⌋₊ ↔ n % 100 = 1 := by
  have hcast : rank n 99 = ⌊rank n 99⌋₊ ↔ 99*(n-1) = 100*(99*(n-1)/100) := by
    rw [floor_rank_99,rank,← @Nat.cast_inj ℚ]
    push_cast
    constructor <;> intro h <;> linarith
  rw [hcast]
  omega

/-- Some sample has at most `k` samples below it, and at least `k+2` that are at most it. -/
def Tied (k : ℕ) (samples : List Int64) : Prop :=
  ∃ v ∈ samples, samples.countP (· < v) ≤ k ∧ k+2 ≤ samples.countP (· ≤ v)

instance (k : ℕ) (samples : List Int64) : Decidable (Tied k samples) :=
  inferInstanceAs (Decidable (∃ v ∈ samples, _))

theorem tied_iff_values : Tied k samples ↔
    ∃ v ∈ values samples, (values samples).countP (· < v) ≤ k ∧
      k+2 ≤ (values samples).countP (· ≤ v) := by
  have hlt : ∀ v, (values samples).countP (· < toDouble v) = samples.countP (· < v) := by
    intro v
    simp only [countP_values,toDouble_lt_toDouble]
  have hle : ∀ v, (values samples).countP (· ≤ toDouble v) = samples.countP (· ≤ v) := by
    intro v
    simp only [countP_values,toDouble_le_toDouble]
  constructor
  · rintro ⟨v,hmem,h⟩
    refine ⟨toDouble v,List.mem_map_of_mem hmem,?_⟩
    rwa [hlt,hle]
  · rintro ⟨_,hmem,h⟩
    obtain ⟨v,hv,rfl⟩ := List.mem_map.mp hmem
    rw [hlt,hle] at h
    exact ⟨v,hv,h⟩

theorem stair_succ_eq_iff (hk : k+1 < samples.length) :
    stair (sort samples) (k+1) = stair (sort samples) k ↔ Tied k samples := by
  have hlen : (values (sort samples)).length = samples.length := length_values_sort
  rw [tied_iff_values,stair_eq_values (by omega),stair_eq_values (by omega)]
  exact getElem_eq_getElem_succ_iff (sortedLE_values_sort samples) (values_sort_perm samples)
    (by omega)

/-- A row has the sample at the floor of the rank as its p99. -/
theorem sizeRow_eq (size : ℕ) {stats : LatencyStats} (hne : sort stats.samplesNs ≠ []) :
    sizeRow size stats = some ⟨size,toDouble ((sort stats.samplesNs).head hne)/1000,
      (sort stats.samplesNs).foldl (fun sum s => sum+toDouble s) 0/
        (sort stats.samplesNs).length/1000,
      stair (sort stats.samplesNs) ⌊rank (sort stats.samplesNs).length 99⌋₊/1000,
      toDouble ((sort stats.samplesNs).getLast hne)/1000⟩ := by
  have hpos : 0 < (sort stats.samplesNs).length := List.length_pos_iff.mpr hne
  have hidx : ⌊rank (sort stats.samplesNs).length 99⌋₊ < (sort stats.samplesNs).length := by
    rw [floor_rank_99]
    omega
  have hcast : truncate (99/100*((sort stats.samplesNs).length-1 : ℕ)) =
      some ⌊rank (sort stats.samplesNs).length 99⌋₊ :=
    if_pos (lt_of_lt_of_le (by norm_num) (rank_nonneg (by norm_num)))
  rw [sizeRow,List.head?_eq_some_head hne,List.getLast?_eq_getLast_of_ne_nil hne,hcast,
    stair_eq hidx]
  simp [List.getElem?_eq_getElem hidx]

/-- A row beside the report of the same samples: the other columns are the same, and the p99 of a
row is the value from which the report interpolates. -/
theorem sizeRow_printReport (size : ℕ) (label : String) {stats : LatencyStats}
    (hne : stats.samplesNs ≠ []) :
    ∃ row f, sizeRow size stats = some row ∧ printReport stats label = some (.table label f) ∧
      row.size = size ∧ row.min = f.min ∧ row.mean = f.mean ∧ row.max = f.max ∧
      row.p99 = stair (sort stats.samplesNs) ⌊rank (sort stats.samplesNs).length 99⌋₊/1000 ∧
      f.p99 = percentileAt (sort stats.samplesNs) 99/1000 := by
  obtain ⟨variance,hfig⟩ := figures_eq (sort_ne_nil hne)
  have hreport := printReport_of_ne_nil hne label
  rw [hfig,Option.map_some] at hreport
  exact ⟨_,_,sizeRow_eq size (sort_ne_nil hne),hreport,rfl,rfl,rfl,rfl,rfl,rfl⟩

/-- Where the two quantiles meet: the rank is an index, or there is nothing between the two samples
around it. -/
theorem stair_eq_percentileAt_iff (hne : samples ≠ []) :
    stair (sort samples) ⌊rank (sort samples).length 99⌋₊ = percentileAt (sort samples) 99 ↔
      samples.length % 100 = 1 ∨ Tied (99*(samples.length-1)/100) samples := by
  have hpos : 0 < samples.length := List.length_pos_iff.mpr hne
  rw [eq_comm,percentileAt,interpolate_eq_floor_iff,length_sort,rank_99_eq_floor_iff hpos,
    floor_rank_99]
  by_cases hmod : samples.length % 100 = 1
  · exact iff_of_true (.inl hmod) (.inl hmod)
  · have hone : 1 < samples.length := by omega
    rw [stair_succ_eq_iff (by omega)]

/-- The p99 of a row is the p99 of the report for the same samples exactly if their number is one
above a multiple of 100 or the two samples around the rank are equal. -/
theorem p99_agrees_iff (size : ℕ) (label : String) {stats : LatencyStats}
    (hne : stats.samplesNs ≠ []) :
    ∃ row f, sizeRow size stats = some row ∧ printReport stats label = some (.table label f) ∧
      (row.p99 = f.p99 ↔ stats.samplesNs.length % 100 = 1 ∨
        Tied (99*(stats.samplesNs.length-1)/100) stats.samplesNs) := by
  obtain ⟨row,f,hrow,hreport,_,_,_,_,hrp,hfp⟩ := sizeRow_printReport size label hne
  refine ⟨row,f,hrow,hreport,?_⟩
  rw [hrp,hfp,div_left_inj' (by norm_num)]
  exact stair_eq_percentileAt_iff hne

/-- Fifty round trips, the slowest measured twice. -/
def twiceSlowest : LatencyStats := measure fun i => .ofNat (min i 48)

/-- 101 samples, whose p99 is an index, and a tie. -/
theorem p99_agrees_iff_cases :
    (∃ row f, sizeRow 16 ⟨(List.range 101).map .ofNat⟩ = some row ∧
      printReport ⟨(List.range 101).map .ofNat⟩ = some (.table "Latency Report" f) ∧
      row.p99 = f.p99) ∧
    ∃ row f, sizeRow 16 twiceSlowest = some row ∧
      printReport twiceSlowest = some (.table "Latency Report" f) ∧ row.p99 = f.p99 := by
  constructor
  · obtain ⟨row,f,hrow,hreport,hiff⟩ := @p99_agrees_iff 16 "Latency Report"
      ⟨(List.range 101).map .ofNat⟩ (by decide)
    exact ⟨row,f,hrow,hreport,hiff.mpr (.inl (by decide))⟩
  · obtain ⟨row,f,hrow,hreport,hiff⟩ := @p99_agrees_iff 16 "Latency Report" twiceSlowest (by decide)
    exact ⟨row,f,hrow,hreport,hiff.mpr (.inr (by decide))⟩

/-- Fifty round trips of 0, 1, .., 49 microseconds. -/
def ramp : LatencyStats := measure fun i => .ofNat (1000*i)

/-- The row shows 48 and the report 48.51. -/
theorem p99_disagrees :
    ∃ row f, sizeRow 16 ramp = some row ∧
      printReport ramp = some (.table "Latency Report" f) ∧ row.p99 = 48 ∧ f.p99 = 4851/100 ∧
      row.p99 ≠ f.p99 := by
  have hrow : (sizeRow 16 ramp).map (·.p99) = some 48 := by decide +kernel
  have hfig : (figures (sort ramp.samplesNs)).map (·.p99) = some (4851/100) := by decide +kernel
  obtain ⟨row,hrow,hrp⟩ := Option.map_eq_some_iff.mp hrow
  obtain ⟨f,hf,hfp⟩ := Option.map_eq_some_iff.mp hfig
  refine ⟨row,f,hrow,?_,hrp,hfp,?_⟩
  · rw [printReport_of_ne_nil (by decide),hf]
    rfl
  · rw [hrp,hfp]
    norm_num

theorem samplesNs_foldl_recordNs (roundTrip : ℕ → Int64) (l : List ℕ) (stats : LatencyStats) :
    (l.foldl (fun stats i => stats.recordNs (roundTrip i)) stats).samplesNs =
      stats.samplesNs++l.map roundTrip := by
  induction l generalizing stats with
  | nil => exact (List.append_nil _).symm
  | cons i l ih =>
    rw [List.foldl_cons,ih,List.map_cons]
    exact List.append_assoc _ [roundTrip i] _

theorem samplesNs_measure (roundTrip : ℕ → Int64) :
    (measure roundTrip).samplesNs = (List.range kMessagesPerSize).map roundTrip :=
  samplesNs_foldl_recordNs roundTrip _ {}

theorem countP_lt_add_count {v : Int64} (h : ∀ s ∈ samples, s ≤ v) :
    samples.countP (· < v)+samples.count v = samples.length := by
  rw [List.length_eq_countP_add_countP (· < v),List.count_eq_countP]
  congr 1
  refine List.countP_congr fun s hs => ?_
  simp only [beq_iff_eq,decide_eq_true_eq,Int64.not_lt]
  exact ⟨fun he => he ▸ Int64.le_refl _,fun hle => Int64.le_antisymm (h s hs) hle⟩

/-- At the last two samples a tie is the greatest sample measured twice. -/
theorem tied_last_iff (hlen : samples.length = k+2) :
    Tied k samples ↔ ∃ v, (∀ s ∈ samples, s ≤ v) ∧ 2 ≤ samples.count v := by
  constructor
  · rintro ⟨v,_,hlt,hle⟩
    have hall : ∀ s ∈ samples, s ≤ v := by
      have hcount : samples.countP (· ≤ v) = samples.length :=
        le_antisymm List.countP_le_length (by omega)
      simpa using List.countP_eq_length.mp hcount
    have hsum := countP_lt_add_count hall
    exact ⟨v,hall,by omega⟩
  · rintro ⟨v,hall,hcount⟩
    have hsum := countP_lt_add_count hall
    have hle : samples.countP (· ≤ v) = samples.length :=
      List.countP_eq_length.mpr fun s hs => decide_eq_true (hall s hs)
    exact ⟨v,List.count_pos_iff.mp (by omega),by omega,by omega⟩

theorem exists_mapM {α β : Type} {f : α → Option β} {R : α → β → Prop} {l : List α}
    (h : ∀ a, ∃ b, f a = some b ∧ R a b) : ∃ l', l.mapM f = some l' ∧ List.Forall₂ R l l' := by
  induction l with
  | nil => exact ⟨[],rfl,.nil⟩
  | cons a l ih =>
    obtain ⟨b,hb,hab⟩ := h a
    obtain ⟨l',hl,hR⟩ := ih
    exact ⟨b :: l',by rw [List.mapM_cons,hb,hl]; rfl,.cons hab hR⟩

/-- The benchmark has a row for each size. Beside a report of the same round trips its p99 is the
one that may be lower, and it is not exactly if the slowest round trip was measured twice. -/
theorem benchmarkMessageSizes_rows (roundTrip : List UInt8 → ℕ → Int64) (label : String) :
    ∃ rows, benchmarkMessageSizes roundTrip = some rows ∧ List.Forall₂ (fun size row =>
      row.size = size ∧ ∃ f, printReport (measure (roundTrip (makePayload size))) label =
          some (.table label f) ∧
        row.min = f.min ∧ row.mean = f.mean ∧ row.max = f.max ∧ row.p99 ≤ f.p99 ∧
        (row.p99 = f.p99 ↔
          ∃ v, (∀ s ∈ (measure (roundTrip (makePayload size))).samplesNs, s ≤ v) ∧
            2 ≤ (measure (roundTrip (makePayload size))).samplesNs.count v)) sizes rows := by
  refine exists_mapM fun size => ?_
  have hlen : (measure (roundTrip (makePayload size))).samplesNs.length = 48+2 := by
    rw [samplesNs_measure,List.length_map,List.length_range]
    rfl
  have hne : (measure (roundTrip (makePayload size))).samplesNs ≠ [] :=
    List.ne_nil_of_length_pos (by omega)
  obtain ⟨row,f,hrow,hreport,hsize,hmin,hmean,hmax,hrp,hfp⟩ := sizeRow_printReport size label hne
  refine ⟨row,hrow,hsize,f,hreport,hmin,hmean,hmax,?_,?_⟩
  · rw [hrp,hfp]
    exact div_le_div_of_nonneg_right
      (le_interpolate (stair_monotone (sort_pairwise _)) (rank_nonneg (by norm_num))) (by norm_num)
  · rw [hrp,hfp,div_left_inj' (by norm_num),stair_eq_percentileAt_iff hne,← tied_last_iff hlen,hlen]
    norm_num

end WsClient.Bench
