import Mathlib.Data.List.Basic
import Mosec.Wire

namespace Mosec

/-- `createAt` names the submission, the only thing an `Instant` is compared for here. -/
structure Task where
  code : TaskCode
  data : Bytes
  stage : ℕ
  route : String
  createAt : ℕ
  deriving DecidableEq, Repr

def Task.new (data : Bytes) (route : String) (now : ℕ) : Task :=
  ⟨.InternalError, data, 0, route, now⟩

def Task.update (task : Task) (code : TaskCode) (data : Bytes) : Task :=
  { task with code := code, data := data, stage := task.stage + 1 }

def ingress : UInt16 := 1
def egress : UInt16 := 2

def Task.encodeState (task : Task) (total : ℕ) : UInt16 :=
  (if task.stage = 0 then ingress else 0) ||| (if total - 1 = task.stage then egress else 0)

inductive ServiceError where
  | Timeout
  | TooManyRequests
  | UnknownError
  deriving DecidableEq, Repr

structure Runtime where
  worker : String
  maxBatchSize : ℕ
  deriving DecidableEq, Repr

structure Route where
  endpoint : String
  workers : List String
  deriving DecidableEq, Repr

structure Config where
  capacity : ℕ
  runtimes : List Runtime
  routes : List Route
  deriving DecidableEq, Repr

/-- The channels and the table `senders` of an initialised task manager. A channel is named by
the position of its runtime in the configuration. -/
structure Service where
  capacity : ℕ
  runtimes : List Runtime
  senders : String → Option (List ℕ)
  capacity_pos : 0 < capacity
  senders_ne_nil : ∀ key, senders key ≠ some []
  senders_lt : ∀ {key route r}, senders key = some route → r ∈ route → r < runtimes.length

def Service.batchSize (svc : Service) (r : ℕ) : ℕ :=
  (svc.runtimes[r]?.map Runtime.maxBatchSize).getD 0

def Service.Feeds (svc : Service) (a b : ℕ) : Prop :=
  ∃ key route n, svc.senders key = some route ∧ route[n]? = some a ∧ route[n + 1]? = some b

namespace Config

/-- `worker_channel[w]`: a later runtime of the same name has replaced the earlier one. -/
def workerChannel (conf : Config) (w : String) : Option ℕ :=
  (List.range conf.runtimes.length).reverse.find?
    fun i => conf.runtimes[i]?.map Runtime.worker = some w

/-- The loop over `conf.routes`: a later route of the same endpoint replaces the earlier one. -/
def senders (conf : Config) (key : String) : Option (List ℕ) :=
  (conf.routes.reverse.find? (fun route => route.endpoint = key)).map fun route =>
    route.workers.filterMap conf.workerChannel

structure Registered (conf : Config) : Prop where
  capacity_pos : 0 < conf.capacity
  workers_ne_nil : ∀ route ∈ conf.routes, route.workers ≠ []
  workers_known : ∀ route ∈ conf.routes, ∀ w ∈ route.workers,
    w ∈ conf.runtimes.map Runtime.worker

theorem workerChannel_lt {conf : Config} {w : String} {i : ℕ} (h : conf.workerChannel w = some i) :
    i < conf.runtimes.length := by
  have hmem := List.mem_of_find?_eq_some h
  rw [List.mem_reverse, List.mem_range] at hmem
  exact hmem

theorem workerChannel_isSome {conf : Config} {w : String}
    (h : w ∈ conf.runtimes.map Runtime.worker) : (conf.workerChannel w).isSome := by
  obtain ⟨runtime, hmem, hname⟩ := List.mem_map.mp h
  obtain ⟨i, hi, hget⟩ := List.mem_iff_getElem.mp hmem
  rw [workerChannel, List.find?_isSome]
  refine ⟨i, by simpa using hi, ?_⟩
  simp [List.getElem?_eq_getElem hi, hget, hname]

theorem mem_routes_of_senders {conf : Config} {key : String} {channels : List ℕ}
    (h : conf.senders key = some channels) :
    ∃ route ∈ conf.routes, route.workers.filterMap conf.workerChannel = channels := by
  obtain ⟨route, hfind, hchannels⟩ := Option.map_eq_some_iff.mp h
  exact ⟨route, List.mem_reverse.mp (List.mem_of_find?_eq_some hfind), hchannels⟩

theorem senders_ne_nil {conf : Config} (h : conf.Registered) (key : String) :
    conf.senders key ≠ some [] := by
  intro hkey
  obtain ⟨route, hmem, hnil⟩ := mem_routes_of_senders hkey
  obtain ⟨w, ws, hw⟩ := List.exists_cons_of_ne_nil (h.workers_ne_nil route hmem)
  have hknown := workerChannel_isSome (h.workers_known route hmem w (by simp [hw]))
  obtain ⟨i, hi⟩ := Option.isSome_iff_exists.mp hknown
  simp [hw, hi] at hnil

theorem senders_lt {conf : Config} {key : String} {channels : List ℕ} {r : ℕ}
    (h : conf.senders key = some channels) (hr : r ∈ channels) : r < conf.runtimes.length := by
  obtain ⟨route, -, rfl⟩ := mem_routes_of_senders h
  obtain ⟨w, -, hw⟩ := List.mem_filterMap.mp hr
  exact workerChannel_lt hw

def initFromConfig (conf : Config) (h : conf.Registered) : Service where
  capacity := conf.capacity
  runtimes := conf.runtimes
  senders := conf.senders
  capacity_pos := h.capacity_pos
  senders_ne_nil := senders_ne_nil h
  senders_lt := senders_lt

end Config

def echo : Service :=
  Config.initFromConfig ⟨1, [⟨"echo", 1⟩], [⟨"/", ["echo"]⟩]⟩ ⟨by decide, by decide, by decide⟩

end Mosec
