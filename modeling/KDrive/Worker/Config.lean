import KDrive.Go.Runtime
import Mathlib.Data.Option.Basic

/-! The worker's configuration: what `WorkerConfig.validate` accepts, and the jobs that
`buildJobs` makes of it. Integers are 64 bits wide and wrap, durations included. -/
namespace KDrive.Worker
open Go

structure CacheConfig where
  type : String := "memory"
  diskRootPath : String := ""
  maxBytes : Int64

structure StorageConfig where
  provider : String := ""
  endpoint : String := ""
  region : String := ""
  bucket : String := ""
  accessKey : String := ""
  secretKey : String := ""

structure WorkerConfig where
  env : String := "dev"
  postgresDSN : String := ""
  storage : StorageConfig := {}
  cache : CacheConfig
  backupCron : String := "17 3 * * *"
  backupRetentionDays : Int64 := 14
  promoteIntervalMs : Int64 := 0
  promoteBatchSize : Int64 := 0
  promoteParallelism : Int64 := 0
  repairIntervalMs : Int64 := 0
  repairSampleCount : Int64 := 0
  queueDepthAlert : Int64 := 0
  storageCircuitBreakerThreshold : Int64 := 0

def CacheConfig.validate (c : CacheConfig) : Option GoError :=
  let positive := if c.maxBytes ≤ 0 then some (.new "max_bytes must be positive") else none
  if c.type = "" ∨ c.type = "memory" then positive
  else if c.type = "disk" then
    if c.diskRootPath = "" then some (.new "disk_root_path is required when type=disk") else positive
  else some (.errorf "unknown cache type %q (want memory or disk)" [.str c.type])

def required (field value : String) : Option GoError :=
  if value = "" then some (.new (field ++ " is required")) else none

def StorageConfig.validate (s : StorageConfig) : Option GoError :=
  required "endpoint" s.endpoint <|> required "region" s.region <|> required "bucket" s.bucket <|>
    required "access_key" s.accessKey <|> required "secret_key" s.secretKey <|>
    if s.provider ∈ ["", "wasabi", "s3", "b2"] then none
    else some (.errorf "unknown provider %q (want wasabi, s3, or b2)" [.str s.provider])

/-- A tuning knob: zero means the default, and negative values are refused. -/
def notNegative (field : String) (value : Int64) : Option GoError :=
  if value < 0 then
    some (.errorf ("config: " ++ field ++ " must be >= 0, got %d") [.int value.toInt])
  else none

def WorkerConfig.validate (c : WorkerConfig) : Option GoError :=
  c.cache.validate.map (.wrap "config: cache: %w" []) <|>
  (if c.backupRetentionDays < 1 ∨ 365 < c.backupRetentionDays then
    some (.errorf "config: backup_retention_days must be 1-365, got %d"
      [.int c.backupRetentionDays.toInt])
  else none) <|>
  notNegative "promote_interval_ms" c.promoteIntervalMs <|>
  notNegative "promote_batch_size" c.promoteBatchSize <|>
  notNegative "promote_parallelism" c.promoteParallelism <|>
  (if 100 < c.promoteParallelism then
    some (.errorf "config: promote_parallelism must be <= 100, got %d"
      [.int c.promoteParallelism.toInt])
  else none) <|>
  notNegative "repair_interval_ms" c.repairIntervalMs <|>
  notNegative "repair_sample_count" c.repairSampleCount <|>
  notNegative "queue_depth_alert" c.queueDepthAlert <|>
  notNegative "storage_circuit_breaker_threshold" c.storageCircuitBreakerThreshold <|>
  if c.env = "production" then
    (if c.postgresDSN = "" then some (.new "config: postgres_dsn is required in production")
      else none) <|>
    c.storage.validate.map (.wrap "config: storage: %w" [])
  else none

/-- `time.Duration` in nanoseconds. -/
def millisecond : Int64 := 1000000
def second : Int64 := 1000000000
def minute : Int64 := 60 * second
def hour : Int64 := 60 * minute

/-- A tuning knob or its default. -/
def tuned (value default : Int64) : Int64 := if 0 < value then value else default

/-- An interval in milliseconds or its default. -/
def interval (ms default : Int64) : Int64 := if 0 < ms then ms * millisecond else default

inductive Job where
  | promotion (interval batchSize parallelism : Int64)
  | repair (interval sampleCount : Int64)
  | purge (interval : Int64)
  | backup (cron : String) (retentionDays : Int64)
  | guardrailRollup (interval queueDepthAlert : Int64)
  deriving DecidableEq

def buildJobs (cfg : WorkerConfig) : List Job :=
  [.promotion (interval cfg.promoteIntervalMs (30 * second)) (tuned cfg.promoteBatchSize 100)
      (tuned cfg.promoteParallelism 4),
    .repair (interval cfg.repairIntervalMs (5 * minute)) (tuned cfg.repairSampleCount 10),
    .purge hour,
    .backup cfg.backupCron cfg.backupRetentionDays,
    .guardrailRollup (5 * minute) (tuned cfg.queueDepthAlert 1000)]

/-- The interval of the ticker that a job starts with. -/
def Job.ticks : Job → Int64
  | .promotion interval .. | .repair interval _ | .purge interval | .guardrailRollup interval _ =>
    interval
  | .backup .. => 24 * hour

/-- `time.NewTicker`, which panics unless the interval is positive. -/
def newTicker (d : Int64) : Except String Unit :=
  if d ≤ 0 then .error "non-positive interval for NewTicker" else .ok ()

/-- The nanoseconds that a setting in milliseconds stands for. -/
def asked (ms default : Int64) : Int := if ms = 0 then default.toInt else ms.toInt * 1000000

/-- The jobs tick as they are configured to, and every ticker starts. -/
structure TicksAsAsked (cfg : WorkerConfig) : Prop where
  promotion : ∀ interval batch parallelism,
    .promotion interval batch parallelism ∈ buildJobs cfg →
      0 < interval ∧ interval.toInt = asked cfg.promoteIntervalMs (30 * second)
  repair : ∀ interval samples, .repair interval samples ∈ buildJobs cfg →
    0 < interval ∧ interval.toInt = asked cfg.repairIntervalMs (5 * minute)
  starts : ∀ job ∈ buildJobs cfg, newTicker job.ticks = .ok ()

theorem notNegative_none (h : notNegative field value = none) : 0 ≤ value.toInt := by
  simp only [notNegative, ite_eq_right_iff, reduceCtorEq, imp_false, Int64.not_lt] at h
  exact Int64.le_iff_toInt_le.mp h

theorem validate_intervals {cfg : WorkerConfig} (accepted : cfg.validate = none) :
    0 ≤ cfg.promoteIntervalMs.toInt ∧ 0 ≤ cfg.repairIntervalMs.toInt := by
  simp only [WorkerConfig.validate, Option.orElse_eq_none] at accepted
  obtain ⟨-, -, promote, -, -, -, repair, -⟩ := accepted
  exact ⟨notNegative_none promote, notNegative_none repair⟩

/-- An interval that is not negative comes out as asked exactly when its nanoseconds fit. -/
theorem interval_iff {ms default : Int64} (usable : 0 ≤ ms.toInt) (sane : 0 < default) :
    0 < interval ms default ∧ (interval ms default).toInt = asked ms default ↔
      ms.toInt * 1000000 < 2 ^ 63 := by
  by_cases unset : ms = 0
  · simp [interval, asked, unset, sane]
  have positive : 0 < ms.toInt := by
    have : ms.toInt ≠ 0 := fun h => unset (Int64.toInt_inj.mp (h.trans (by decide)))
    omega
  have set : 0 < ms := Int64.lt_iff_toInt_lt.mpr positive
  have product : (ms * millisecond).toInt = (ms.toInt * 1000000).bmod (2 ^ 64) := by
    rw [Int64.toInt_mul]; rfl
  simp only [interval, asked, set, unset, if_true, if_false, Int64.lt_iff_toInt_lt, product]
  constructor
  · rintro ⟨-, same⟩
    have high : (ms.toInt * 1000000).bmod (2 ^ 64) < _ := Int.bmod_lt (by decide)
    omega
  · intro fits
    have same : (ms.toInt * 1000000).bmod (2 ^ 64) = ms.toInt * 1000000 :=
      Go.int64_of_isInt64 ⟨by omega, fits⟩
    rw [same]
    exact ⟨by show (0 : Int) < _; omega, rfl⟩

theorem newTicker_ok (positive : 0 < d) : newTicker d = .ok () := by
  simp [newTicker, Int64.not_le.mpr positive]

/-- `validate` bounds the intervals from below only, so what decides is whether the nanoseconds
still fit. -/
theorem ticks_iff (cfg : WorkerConfig) (accepted : cfg.validate = none) :
    TicksAsAsked cfg ↔
      cfg.promoteIntervalMs.toInt * 1000000 < 2 ^ 63 ∧
        cfg.repairIntervalMs.toInt * 1000000 < 2 ^ 63 := by
  obtain ⟨promote, repair⟩ := validate_intervals accepted
  have promotion := interval_iff promote (show 0 < 30 * second by decide)
  have repairing := interval_iff repair (show 0 < 5 * minute by decide)
  constructor
  · intro asked
    exact ⟨promotion.mp (asked.promotion _ _ _ (.head _)),
      repairing.mp (asked.repair _ _ (.tail _ (.head _)))⟩
  · rintro ⟨first, second⟩
    have one := promotion.mpr first
    have two := repairing.mpr second
    constructor
    · intro interval batch parallelism listed
      simp only [buildJobs, List.mem_cons, Job.promotion.injEq, reduceCtorEq, List.not_mem_nil,
        or_false] at listed
      rw [listed.1]
      exact one
    · intro interval samples listed
      simp only [buildJobs, List.mem_cons, Job.repair.injEq, reduceCtorEq, List.not_mem_nil,
        or_false, false_or] at listed
      rw [listed.1]
      exact two
    · simp only [buildJobs, List.forall_mem_cons, Job.ticks]
      exact ⟨newTicker_ok one.1, newTicker_ok two.1, by decide, by decide, by decide, by simp⟩

/-- A sweep every minute and a repair round every day. -/
theorem ticks_minutely : TicksAsAsked
    { cache := { maxBytes := 1073741824 }, promoteIntervalMs := 60000, repairIntervalMs := 86400000 } :=
  (ticks_iff _ (by decide)).mpr (by decide)

/-- An accepted interval of about 292 years, one millisecond above what fits: the ticker of the
promotion job panics. -/
theorem accepted_interval_panics :
    let cfg : WorkerConfig := { cache := { maxBytes := 1 }, promoteIntervalMs := 9223372036855 }
    cfg.validate = none ∧
      (buildJobs cfg).map (newTicker ·.ticks) =
        .error "non-positive interval for NewTicker" :: List.replicate 4 (.ok ()) ∧
      ¬ TicksAsAsked cfg := by
  intro cfg
  refine ⟨by decide, by decide, fun ticks => ?_⟩
  have starts := ticks.starts _ (.head _)
  exact absurd starts (by decide)

end KDrive.Worker
