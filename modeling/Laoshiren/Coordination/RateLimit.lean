import Mathlib.Data.List.Count
import Mathlib.Logic.Function.Basic
import Laoshiren.Foundation.Machine

/-!
# The limit of requests

All processes of the API count the requests of a client in Redis, with one counter for a client and
a path. The request that starts a counter is to make it expire a minute later, in a command of its
own. Any command may fail, or its answer may be lost, and a process may stop between its two
commands; a request that Redis gives no answer to is let through.
-/

namespace Coordination

/-- How the limit is configured. -/
structure RateLimit where
  enabled : Bool := true
  requestsPerMinute : ℕ := 120

structure Request where
  clientHost : Option String
  path : String
  deriving DecidableEq

/-- The name of the counter of a request. -/
def Request.key (request : Request) : String :=
  "rate-limit:" ++ request.clientHost.getD "unknown" ++ ":" ++ request.path

/-- The limit is asked about a request. -/
def RateLimit.counts (limit : RateLimit) (request : Request) : Bool :=
  limit.enabled && decide (0 < limit.requestsPerMinute) &&
    !"/health/ready".toList.isSuffixOf request.path.toList

/-- `count > self._limit`: the request is answered with 429. -/
def RateLimit.refuses (limit : RateLimit) (count : ℕ) : Bool := limit.requestsPerMinute < count

/-- `EXPIRE key 60`, in milliseconds. -/
def minute : ℕ := 60000

/-! ## Redis -/

/-- A counter, with the time at which it was started. -/
structure Counter where
  value : ℕ
  expiresAt : Option ℕ
  startedAt : ℕ
  deriving DecidableEq

/-- A request that was let through on an answer of Redis: the time at which it was counted, and the
counter. -/
structure Passage where
  key : String
  countedAt : ℕ
  startedAt : ℕ
  deriving DecidableEq

/-- Redis, the requests that are about to make their counter expire, and those that were let
through, the latest first. -/
structure Limiter where
  now : ℕ := 0
  counters : String → Option Counter := fun _ => none
  expiring : List String := []
  passages : List Passage := []

/-- The counter after `INCR`. -/
def Limiter.counted (s : Limiter) (key : String) : Counter :=
  match s.counters key with
  | none => { value := 1, expiresAt := none, startedAt := s.now }
  | some counter => { counter with value := counter.value + 1 }

/-- A counter at a point in time: it is gone once it expires. -/
def Counter.at (now : ℕ) (counter : Counter) : Option Counter :=
  if counter.expiresAt.any fun t => t ≤ now then none else some counter

def Limiter.pass (s : Limiter) (time : ℕ) : Limiter :=
  { s with
    now := s.now + time
    counters := fun key => (s.counters key).bind (Counter.at (s.now + time)) }

/-- Redis counts a request. -/
def Limiter.count (s : Limiter) (key : String) : Limiter :=
  { s with counters := Function.update s.counters key (some (s.counted key)) }

/-- A request is let through. -/
def Limiter.letThrough (s : Limiter) (key : String) (counter : Counter) : Limiter :=
  { s with passages := ⟨key, s.now, counter.startedAt⟩ :: s.passages }

/-- Redis executes `EXPIRE`. -/
def Limiter.expire (s : Limiter) (key : String) : Limiter :=
  { s with
    counters := Function.update s.counters key ((s.counters key).map fun counter =>
      { counter with expiresAt := some (s.now + minute) })
    expiring := s.expiring.erase key }

/-- What the process does that hears how many requests were counted: it may have to let the counter
expire, and it answers the request. -/
def Limiter.answer (limit : RateLimit) (s : Limiter) (key : String) (counter : Counter) : Limiter :=
  let s := if counter.value = 1 then { s with expiring := key :: s.expiring } else s
  if limit.refuses counter.value then s else s.letThrough key counter

inductive Event where
  /-- Time passes, in milliseconds. -/
  | pass (time : ℕ)
  /-- Redis executes `INCR` for a request, and the process hears of it or not. -/
  | incr (request : Request) (answered : Bool)
  /-- Redis executes `EXPIRE` for the request that started a counter. -/
  | expire (key : String)
  /-- The `EXPIRE` does not reach Redis. -/
  | lose (key : String)

/-- What an event makes of Redis and of the requests. One that cannot happen changes nothing. -/
def step (limit : RateLimit) (s : Limiter) : Event → Limiter
  | .pass time => s.pass time
  | .incr request answered =>
    if limit.counts request then
      let counted := s.count request.key
      if answered then counted.answer limit request.key (s.counted request.key) else counted
    else s
  | .expire key => if key ∈ s.expiring then s.expire key else s
  | .lose key => { s with expiring := s.expiring.erase key }

/-- The state after `n` events. -/
def RateLimit.run (limit : RateLimit) (events : ℕ → Event) (n : ℕ) : Limiter :=
  Machine.run (step limit) {} events n

/-! ## What the limit is for -/

/-- The requests on a key that were let through in the minute from `start` on. -/
def Limiter.passedWithin (s : Limiter) (key : String) (start : ℕ) : ℕ :=
  s.passages.countP fun p => p.key = key ∧ start ≤ p.countedAt ∧ p.countedAt < start + minute

/-- A command that was to let the counter expire, or that would have told a process to do so, was
lost. -/
def Event.Loses (key : String) : Event → Prop
  | .incr request answered => request.key = key ∧ answered = false
  | .lose lost => lost = key
  | _ => False

/-- No more requests on a key pass: its counter is full and does not expire, and no process is going
to make it expire. -/
structure Limiter.Shut (limit : RateLimit) (s : Limiter) (key : String) (counter : Counter) :
    Prop where
  stored : s.counters key = some counter
  lasting : counter.expiresAt = none
  forgotten : key ∉ s.expiring
  full : limit.requestsPerMinute ≤ counter.value

end Coordination
