import HubScope.Lib.Grouping
import HubScope.Status.Percentile
import Mathlib.Data.List.AList

/-!
# Probes, their hourly rollups and the series

Raw probes are aggregated into hourly buckets, one for each streaming mode, up to a watermark
that is kept for each endpoint. The series of an endpoint reads the stored buckets and fills
the tail from the raw probes at or after the watermark, so retention may delete the others.

Times are seconds since the epoch, stored to the second and in UTC; averages are exact
rationals.

## Main definitions

* `Probe`, `SeriesBucket`, `ProbeStore` — the tables
* `BucketAgg`, `BucketAgg.build` — what a bucket accumulates
* `ProbeStore.rollupProbesBefore`, `ProbeStore.deleteProbesBefore` — rollup and retention
* `ProbeStore.getSeries` — the buckets of an endpoint
-/

set_option autoImplicit false

namespace HubScope

/-- A `probes` row. -/
structure Probe where
  endpointId : ℕ
  streaming : Bool
  ok : Bool
  latencyMs : ℤ
  ttftMs : Option ℤ
  createdAt : ℕ
  deriving DecidableEq, Repr

/-- The modes `probe_rollups.streaming` stores. -/
inductive RollupMode
  | nonStreaming
  | streaming
  | combined
  deriving DecidableEq, Repr

/-- Which probes a series query aggregates. -/
inductive SeriesMode
  | all
  | streaming
  | nonStreaming
  deriving DecidableEq, Repr

def SeriesMode.rollupMode : SeriesMode → RollupMode
  | streaming => .streaming
  | nonStreaming => .nonStreaming
  | all => .combined

/-- The probes a stored mode covers. -/
def RollupMode.covers : RollupMode → Probe → Bool
  | nonStreaming, p => !p.streaming
  | streaming, p => p.streaming
  | combined, _ => true

/-- The start of the hour of a time. -/
def hourOf (t : ℕ) : ℕ := t / 3600 * 3600

/-- One hourly aggregation point. -/
structure SeriesBucket where
  bucketStart : ℕ
  total : ℕ
  failures : ℕ
  p50Ms : Option ℚ
  p95Ms : Option ℚ
  avgTtftMs : Option ℚ
  deriving DecidableEq

/-- The accumulated raw probes of one hour bucket. -/
structure BucketAgg where
  total : ℕ
  failures : ℕ
  latencies : List ℤ
  ttftSum : ℤ
  ttftCount : ℕ

def BucketAgg.empty : BucketAgg := ⟨0, 0, [], 0, 0⟩

/-- Fold one probe in. Only a successful probe's latency counts. -/
def BucketAgg.add (a : BucketAgg) (p : Probe) : BucketAgg where
  total := a.total + 1
  failures := if p.ok then a.failures else a.failures + 1
  latencies := if p.ok then a.latencies ++ [p.latencyMs] else a.latencies
  ttftSum := a.ttftSum + p.ttftMs.getD 0
  ttftCount := if p.ttftMs.isSome then a.ttftCount + 1 else a.ttftCount

/-- The bucket the accumulator is presented as; without a successful probe it has no latency. -/
def BucketAgg.build (a : BucketAgg) (start : ℕ) : SeriesBucket where
  bucketStart := start
  total := a.total
  failures := a.failures
  p50Ms := if a.latencies = [] then none else some (percentile a.latencies 50)
  p95Ms := if a.latencies = [] then none else some (percentile a.latencies 95)
  avgTtftMs := if 0 < a.ttftCount then some (a.ttftSum / a.ttftCount) else none

/-- The accumulator of a list of probes. -/
def aggregate (ps : List Probe) : BucketAgg := ps.foldl BucketAgg.add .empty

def combineAggs (a b : BucketAgg) : BucketAgg where
  total := a.total + b.total
  failures := a.failures + b.failures
  latencies := a.latencies ++ b.latencies
  ttftSum := a.ttftSum + b.ttftSum
  ttftCount := a.ttftCount + b.ttftCount

/-- The accumulators of one endpoint and hour, one for each streaming mode. -/
structure BucketPair where
  streaming : BucketAgg
  nonStreaming : BucketAgg

def BucketPair.add (pair : BucketPair) (p : Probe) : BucketPair :=
  if p.streaming then { pair with streaming := pair.streaming.add p }
  else { pair with nonStreaming := pair.nonStreaming.add p }

/-- The unique key of `probe_rollups`. -/
structure RollupKey where
  endpointId : ℕ
  mode : RollupMode
  bucketStart : ℕ
  deriving DecidableEq, Repr

/-- The probe tables. -/
structure ProbeStore where
  probes : List Probe
  rollups : AList fun _ : RollupKey => SeriesBucket
  watermarks : AList fun _ : ℕ => ℕ

/-- The rows of one endpoint and hour, by mode; a mode without probes gets none. -/
def BucketPair.rows (pair : BucketPair) (endpointId start : ℕ) :
    List (RollupKey × SeriesBucket) :=
  [(RollupMode.streaming, pair.streaming), (.nonStreaming, pair.nonStreaming),
    (.combined, combineAggs pair.streaming pair.nonStreaming)].filterMap fun (mode, agg) =>
      if agg.total = 0 then none else some (⟨endpointId, mode, start⟩, agg.build start)

namespace ProbeStore

/-- Where the raw tail of an endpoint begins. -/
def watermark (st : ProbeStore) (endpointId : ℕ) : ℕ := (st.watermarks.lookup endpointId).getD 0

def createProbe (st : ProbeStore) (p : Probe) : ProbeStore := { st with probes := st.probes ++ [p] }

/-- The raw probes a rollup aggregates: those from the endpoint's watermark up to the cutoff. -/
def pending (st : ProbeStore) (cutoff : ℕ) : List Probe :=
  st.probes.filter fun p => p.createdAt < cutoff ∧ st.watermark p.endpointId ≤ p.createdAt

/-- The pending probes by endpoint and hour. -/
def pendingGroups (st : ProbeStore) (cutoff : ℕ) : List ((ℕ × ℕ) × BucketPair) :=
  (Grouping.group (fun p => (p.endpointId, hourOf p.createdAt)) (st.pending cutoff)).map
    fun (key, ps) => (key, ps.foldl BucketPair.add ⟨.empty, .empty⟩)

/-- Aggregate the probes created before the cutoff's hour, and move the watermark of every
endpoint that had some. The second component is how many were aggregated. -/
def rollupProbesBefore (st : ProbeStore) (cutoff : ℕ) : ProbeStore × ℕ :=
  let cutoff := hourOf cutoff
  let groups := st.pendingGroups cutoff
  ({ st with
      rollups := (groups.flatMap fun ((endpointId, start), pair) =>
        pair.rows endpointId start).foldl (fun t row => t.insert row.1 row.2) st.rollups
      watermarks := groups.foldl (fun w group => w.insert group.1.1 cutoff) st.watermarks },
    (st.pending cutoff).length)

/-- Remove the raw probes created before the cutoff. -/
def deleteProbesBefore (st : ProbeStore) (cutoff : ℕ) : ProbeStore :=
  { st with probes := st.probes.filter fun p => cutoff ≤ p.createdAt }

/-- The stored buckets of an endpoint from `since` on. -/
def storedBuckets (st : ProbeStore) (endpointId since : ℕ) (mode : SeriesMode) :
    List SeriesBucket :=
  st.rollups.entries.filterMap fun ⟨key, b⟩ =>
    if key.endpointId = endpointId ∧ key.mode = mode.rollupMode ∧ since ≤ key.bucketStart then
      some { b with bucketStart := key.bucketStart }
    else none

/-- The buckets of the raw probes at or after `tail`. -/
def rawBuckets (st : ProbeStore) (endpointId tail : ℕ) (mode : SeriesMode) :
    List SeriesBucket :=
  let rows := st.probes.filter fun p =>
    p.endpointId = endpointId ∧ tail ≤ p.createdAt ∧ mode.rollupMode.covers p
  (Grouping.group (fun p => hourOf p.createdAt) rows).map fun (start, ps) =>
    (aggregate ps).build start

/-- The buckets of an endpoint since a time, oldest first: the stored ones, and the raw tail
where none is stored. -/
def getSeries (st : ProbeStore) (endpointId since : ℕ) (mode : SeriesMode) :
    List SeriesBucket :=
  let stored := st.storedBuckets endpointId since mode
  let raw := st.rawBuckets endpointId (max since (st.watermark endpointId)) mode
  let fresh := raw.filter fun b => stored.all (·.bucketStart ≠ b.bucketStart)
  (stored ++ fresh).insertionSort fun a b => a.bucketStart ≤ b.bucketStart

end ProbeStore

end HubScope
