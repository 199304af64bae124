/-
  A crawl: one coordinator that owns the frontier, the seen-set and the counts, and workers that
  take jobs from it and hand results back, over two unbuffered channels.  A send or a receive is
  one step of the two sides together; between them a worker processes its job, with any outcome.

  `taken`, `received` and `dropped` in `Crawl` are its history: the jobs that workers have taken,
  the pages that the coordinator has received, and the jobs whose results were given up when the
  context was done.
-/
import InterviewPrep.Lib.Run

namespace InterviewPrep.WebCrawler

open Lib

variable {U : Type}

/-- The functions on URLs that the crawler is built on. -/
structure Urls (U : Type) where
  parse : String → Option U
  host : U → String
  normalize : U → U
  string : U → String

structure Options (U : Type) where
  workers : Int
  maxDepth : Int
  maxPages : Int
  filters : List (U → Bool)

structure Crawler (U : Type) where
  urls : Urls U
  opts : Options U

/-- The defaults of `NewCrawler` that the coordinator depends on. -/
def newCrawler (urls : Urls U) (opts : Options U) : Crawler U :=
  ⟨urls, { opts with workers := if opts.workers ≤ 0 then 8 else opts.workers }⟩

structure Job (U : Type) where
  u : U
  depth : Nat

inductive PageErr where
  | robotsDisallowed
  | other (text : String)
  deriving DecidableEq

structure Page where
  url : String
  depth : Nat
  statusCode : Int
  links : Nat
  err : Option PageErr

structure Result (U : Type) where
  page : Page
  links : List U

/-- How the processing of a job ends: only a page that was fetched has links. -/
inductive Outcome (U : Type) where
  | disallowed
  | failed (statusCode : Int) (text : String)
  | fetched (statusCode : Int) (links : List U)
  deriving DecidableEq

structure Stats where
  fetched : Nat
  failed : Nat
  disallowed : Nat
  discovered : Nat

inductive CrawlErr where
  | noSeeds
  | contextDone
  | onPage (text : String)
  deriving DecidableEq

/-- A worker: waiting for a job, processing one, sending its result, or gone. -/
inductive Worker (U : Type) where
  | receiving
  | processing (j : Job U)
  | sending (j : Job U) (r : Result U)
  | exited

/-- The job that a worker has taken and not delivered the result of. -/
def Worker.job : Worker U → Option (Job U)
  | processing j => some j
  | sending j _ => some j
  | receiving => none
  | exited => none

def Worker.processed : Worker U → Option (Job U)
  | processing j => some j
  | _ => none

/-- The state of a crawl, with the coordinator at the head of its loop. -/
structure Crawl (U : Type) where
  frontier : List (Job U)
  seen : List String
  stats : Stats
  inFlight : Int
  dispatched : Int
  workers : List (Worker U)
  /-- The context is done. -/
  ctxDone : Bool
  /-- What the coordinator has returned; `jobs` is closed from then on. -/
  returned : Option (Option CrawlErr)
  taken : List (Job U)
  received : List Page
  dropped : List (Job U)

inductive Op (U : Type) where
  /-- The coordinator sends the next job to a worker. -/
  | send (w : Nat)
  /-- A worker has processed its job. -/
  | finish (w : Nat) (outcome : Outcome U)
  /-- The coordinator receives the result of a worker; what `OnPage` answers. -/
  | receive (w : Nat) (onPage : Option String)
  /-- The coordinator returns nil. -/
  | returnNil
  /-- The coordinator sees that the context is done. -/
  | returnDone
  /-- A worker that is sending its result sees that the context is done. -/
  | abandon (w : Nat)
  /-- A worker sees that `jobs` is closed. -/
  | leave (w : Nat)
  /-- The context of the caller is cancelled. -/
  | cancel

namespace Crawler

variable (c : Crawler U)

def allowed (u : U) : Bool := c.opts.filters.all fun f => f u

/-- The key of a job in the seen-set. -/
def key (j : Job U) : String := c.urls.string j.u

def admitUrl (s : Crawl U) (u : U) (depth : Nat) : Crawl U :=
  let n := c.urls.normalize u
  if (depth : Int) > c.opts.maxDepth ∨ !c.allowed n then s
  else if c.urls.string n ∈ s.seen then s
  else { s with seen := c.urls.string n :: s.seen, frontier := s.frontier ++ [⟨n, depth⟩] }

/-- The URLs of the seeds: those that parse and have a host. -/
def seedUrls (seeds : List String) : List U :=
  seeds.filterMap fun s => (c.urls.parse s).filter fun u => c.urls.host u ≠ ""

/-- The result of a job that a worker sends. -/
def result (j : Job U) : Outcome U → Result U
  | .disallowed => ⟨⟨c.urls.string j.u, j.depth, 0, 0, some .robotsDisallowed⟩, []⟩
  | .failed statusCode text =>
    ⟨⟨c.urls.string j.u, j.depth, statusCode, 0, some (.other text)⟩, []⟩
  | .fetched statusCode links =>
    ⟨⟨c.urls.string j.u, j.depth, statusCode, links.length, none⟩, links⟩

/-- The start of `Crawl`, up to the loop of the coordinator. -/
def crawl (seeds : List String) : Except CrawlErr (Crawl U) :=
  let s : Crawl U :=
    { frontier := [], seen := [], stats := ⟨0, 0, 0, 0⟩, inFlight := 0, dispatched := 0
      workers := List.replicate c.opts.workers.toNat .receiving, ctxDone := false
      returned := none, taken := [], received := [], dropped := [] }
  let s := (c.seedUrls seeds).foldl (fun s u => c.admitUrl s u 0) s
  if s.frontier = [] then .error .noSeeds else .ok s

def canSend (s : Crawl U) : Bool :=
  s.frontier ≠ [] && (c.opts.maxPages = 0 || s.dispatched < c.opts.maxPages)

/-- The coordinator is in its `select`. -/
def selecting (s : Crawl U) : Bool :=
  s.returned = none && (c.canSend s || s.inFlight ≠ 0)

/-- The count that a result goes to. -/
def count (stats : Stats) : Option PageErr → Stats
  | some .robotsDisallowed => { stats with disallowed := stats.disallowed + 1 }
  | some (.other _) => { stats with failed := stats.failed + 1 }
  | none => { stats with fetched := stats.fetched + 1 }

/-- `case r := <-results` -/
def handle (s : Crawl U) (r : Result U) (onPage : Option String) : Crawl U :=
  let s₁ := { s with
    inFlight := s.inFlight - 1
    stats := count s.stats r.page.err
    received := s.received ++ [r.page] }
  let s₂ := r.links.foldl (fun s l => c.admitUrl s l (r.page.depth + 1)) s₁
  let s₃ := { s₂ with
    stats := { s₂.stats with
      discovered := s₂.stats.discovered + (s₂.seen.length - s.seen.length) } }
  match onPage with
  | none => s₃
  | some text => { s₃ with returned := some (some (.onPage text)), ctxDone := true }

/-- A step, when it is enabled. -/
def act (s : Crawl U) : Op U → Option (Crawl U)
  | .send w =>
    match s.workers[w]?, s.frontier with
    | some .receiving, next :: frontier =>
      if c.selecting s && c.canSend s then
        some { s with
          frontier := frontier
          inFlight := s.inFlight + 1
          dispatched := s.dispatched + 1
          workers := s.workers.set w (.processing next)
          taken := s.taken ++ [next] }
      else none
    | _, _ => none
  | .finish w outcome =>
    match s.workers[w]? with
    | some (.processing j) =>
      some { s with workers := s.workers.set w (.sending j (c.result j outcome)) }
    | _ => none
  | .receive w onPage =>
    match s.workers[w]? with
    | some (.sending _ r) =>
      if c.selecting s then
        some (c.handle { s with workers := s.workers.set w .receiving } r onPage)
      else none
    | _ => none
  | .returnNil =>
    if s.returned = none && !c.canSend s && s.inFlight = 0 then
      some { s with returned := some none }
    else none
  | .returnDone =>
    if c.selecting s && s.ctxDone then
      some { s with returned := some (some .contextDone) }
    else none
  | .abandon w =>
    match s.workers[w]? with
    | some (.sending j _) =>
      if s.ctxDone then
        some { s with workers := s.workers.set w .exited, dropped := s.dropped ++ [j] }
      else none
    | _ => none
  | .leave w =>
    match s.workers[w]? with
    | some .receiving =>
      if s.returned.isSome then some { s with workers := s.workers.set w .exited } else none
    | _ => none
  | .cancel => some { s with ctxDone := true }

/-- One step of a run; a step that is not enabled is no step. -/
def step (s : Crawl U) (op : Op U) : Except Unit (Unit × Crawl U) :=
  match c.act s op with
  | none => .error ()
  | some s' => .ok ((), s')

end Crawler

end InterviewPrep.WebCrawler
