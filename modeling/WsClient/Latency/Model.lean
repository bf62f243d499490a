import Mathlib.Data.List.Sort
import Mathlib.Data.Rat.Floor

/-!
# `LatencyStats`

The samples in the order of their recording, and `print_report` over an ascending copy. A
`double` is an exact rational.
-/

namespace WsClient.Latency

/-- `LatencyStats`. -/
structure LatencyStats where
  samplesNs : List Int64 := []
  deriving DecidableEq

namespace LatencyStats

/-- `record_ns`. -/
def recordNs (stats : LatencyStats) (nanoseconds : Int64) : LatencyStats :=
  ⟨stats.samplesNs++[nanoseconds]⟩

/-- `count`. -/
def count (stats : LatencyStats) : ℕ := stats.samplesNs.length

/-- `reset`. -/
def reset (_ : LatencyStats) : LatencyStats := ⟨[]⟩

end LatencyStats

/-- `static_cast<double>` of a sample. -/
def toDouble (sample : Int64) : ℚ := sample.toInt

/-- `static_cast<std::size_t>` of a rank: the fraction is dropped, and from -1 down the cast has
no value. A rank is never above `size()-1`, which fits. -/
def truncate (rank : ℚ) : Option ℕ := if -1 < rank then some ⌊rank⌋₊ else none

/-- `std::sort` of a copy. -/
def sort (samples : List Int64) : List Int64 := samples.insertionSort (· ≤ ·)

/-- `percentile`, where `none` is an index out of range or an undefined cast. -/
def percentile (sorted : List Int64) (pct : ℚ) : Option ℚ :=
  if sorted.isEmpty then some 0
  else do
    let rank := pct/100*(sorted.length-1 : ℕ)
    let lower ← truncate rank
    let upper := lower+1
    -- the last sample has nothing above it
    if upper ≥ sorted.length then
      let back ← sorted.getLast?
      return toDouble back
    else
      let frac := rank-lower
      let x ← sorted[lower]?
      let y ← sorted[upper]?
      return toDouble x*(1-frac)+toDouble y*frac

/-- The figures of a report in microseconds; `variance` is the square of `stddev_us`. -/
structure Figures where
  samples : ℕ
  min : ℚ
  max : ℚ
  mean : ℚ
  variance : ℚ
  median : ℚ
  p95 : ℚ
  p99 : ℚ
  p999 : ℚ
  deriving DecidableEq

/-- What `print_report` writes under its label. -/
inductive Report where
  | noSamples (label : String)
  | table (label : String) (figures : Figures)
  deriving DecidableEq

/-- The figures that `print_report` takes from the ascending samples. -/
def figures (sorted : List Int64) : Option Figures := do
  let n := sorted.length
  let sum := sorted.foldl (fun sum s => sum+toDouble s) 0
  let front ← sorted.head?
  let back ← sorted.getLast?
  let mean := sum/n/1000
  let median ← percentile sorted 50
  let p95 ← percentile sorted 95
  let p99 ← percentile sorted 99
  let p999 ← percentile sorted (999/10)
  let sqSum := sorted.foldl
    (fun sqSum s => sqSum+(toDouble s/1000-mean)*(toDouble s/1000-mean)) 0
  return ⟨n,toDouble front/1000,toDouble back/1000,mean,sqSum/n,median/1000,p95/1000,p99/1000,
    p999/1000⟩

/-- `print_report`. -/
def printReport (stats : LatencyStats) (label : String := "Latency Report") : Option Report :=
  if stats.samplesNs.isEmpty then some (.noSamples label)
  else (figures (sort stats.samplesNs)).map (.table label)

/-- The hundredths that `std::fixed << std::setprecision(2)` writes of `x`: the nearest, and the
even one of two. -/
def hundredths (x : ℚ) : ℤ :=
  let low := ⌊x*100⌋
  let rest := x*100-low
  if rest < 1/2 then low
  else if 1/2 < rest then low+1
  else if low % 2 = 0 then low else low+1

end WsClient.Latency
