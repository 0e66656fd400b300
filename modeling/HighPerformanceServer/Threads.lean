import HighPerformanceServer.Lts
import HighPerformanceServer.Server
/-!
# The threads of the server

`main` loops over `epoll_wait`, `handle_events` and `handle_expired_event` (main.cpp:185-192);
workers take connections out of the pool and run `handleRequest`. A step is a `qlock` critical
section, an `epoll_ctl` call, a `delete`, an operation of the pool, or the part of `handleRequest`
before them, each with the local work around it.

| here | there |
| --- | --- |
| `MainPc`   | where `main` is: main.cpp:186, :108, :94, :125 |
| `WorkerPc` | where a worker is in `handleRequest`: requestData.cpp:109, :186/:194, :202, :208, :212 |
| `Label`    | one step, with everything the system answers in it |

An event whose `fd` is the listening socket's is `Event.listen`: `accept` never returns that
descriptor for a connection. A worker whose call halts (`Decision.halted`) makes no further step.

The pointer `events` of `main` (main.cpp:162) is never set in the source. Here it is taken to point to
an array that `epoll_wait` can fill. A `write` to a peer that has reset the connection is taken to fail;
the signal that ends the process then, since main.cpp:161 is commented out, is not modelled.
-/

namespace HPServer

/-- What `epoll_wait` returns; `err` is the test of main.cpp:116-117. -/
inductive Event where
  | listen
  | request (R : ReqId) (err : Bool)
deriving DecidableEq

/-- The connections of a batch. -/
def connections : List Event → List ReqId
  | [] => []
  | .listen :: es => connections es
  | .request R _ :: es => R :: connections es

@[simp] theorem connections_nil : connections [] = [] := rfl

@[simp] theorem connections_listen (es : List Event) :
    connections (.listen :: es) = connections es := rfl

@[simp] theorem connections_request (R : ReqId) (err : Bool) (es : List Event) :
    connections (.request R err :: es) = R :: connections es := rfl

inductive MainPc where
  | wait
  | handling (es : List Event)
  /-- Behind `epoll_add`. -/
  | stamping (R : ReqId) (es : List Event)
  /-- Behind `separateTimer`. -/
  | adding (R : ReqId) (es : List Event)

inductive WorkerPc where
  | idle
  | serving (R : ReqId)
  | deleting (R : ReqId)
  /-- About to lock `qlock`. -/
  | pushing (R : ReqId)
  /-- About to call `epoll_mod`. -/
  | rearming (R : ReqId)
  /-- Behind an `epoll_mod` that failed. -/
  | failing (R : ReqId)

structure Sys where
  server : Server
  main : MainPc
  worker : Nat → WorkerPc

inductive Label where
  | epollWait (es : List Event)
  | acceptFails
  | accept (R : ReqId) (fd : Int) (added : Bool)
  | push (T : TimerId) (now : Nat)
  | errorEvent
  | separate
  | poolAdd
  | sweep (script : List (TimerId × Nat))
  | take (w : Nat)
  | serve (w : Nat) (env : CallEnv)
  | delete (w : Nat)
  | rearmPush (w : Nat) (T : TimerId) (now : Nat)
  | epollMod (w : Nat) (done : Bool)

namespace Server

/-- One event for each armed connection at most. -/
def Deliverable (s : Server) (es : List Event) : Prop :=
  (connections es).Nodup ∧ ∀ R ∈ connections es, s.armed R = true

instance (s : Server) (es : List Event) : Decidable (s.Deliverable es) :=
  inferInstanceAs (Decidable (_ ∧ ∀ R ∈ connections es, s.armed R = true))

/-- `handle_events` reads the object of an event before it tests for errors. -/
def errorEvent (s : Server) (R : ReqId) : Except Fault Server := do
  let _ ← s.getRequest R
  s.deleteRequest R

def separate (s : Server) (R : ReqId) : Except Fault Server := do
  let _ ← s.getRequest R
  s.separateTimer R

end Server

namespace Sys

def start (clock : Nat) : Sys := ⟨.start clock, .wait, fun _ => .idle⟩

def goMain (x : Sys) (pc : MainPc) (s : Except Fault Server) : Option (Except Fault Sys) :=
  some (s.map fun s => { x with server := s, main := pc })

def goWorker (x : Sys) (w : Nat) (pc : WorkerPc) (s : Except Fault Server) :
    Option (Except Fault Sys) :=
  some (s.map fun s => { x with server := s, worker := Function.update x.worker w pc })

def mainStep (epollFd : Int) (x : Sys) : MainPc → Label → Option (Except Fault Sys)
  | .wait, .epollWait es =>
    if x.server.Deliverable es then
      x.goMain (.handling es) (.ok (x.server.disarm (connections es)))
    else none
  | .handling (.listen :: es), .acceptFails => x.goMain (.handling es) (.ok x.server)
  | .handling (.listen :: es), .accept R fd added =>
    if (x.server.request R).isUnborn ∧ 0 < fd then
      x.goMain (.stamping R es) (.ok (x.server.acceptAdd epollFd fd R added))
    else none
  | .stamping R es, .push T now =>
    if (x.server.timer T).isUnborn ∧ x.server.clock ≤ now then
      x.goMain (.handling es) (x.server.acceptPush R T now)
    else none
  | .handling (.request R true :: es), .errorEvent => x.goMain (.handling es) (x.server.errorEvent R)
  | .handling (.request R false :: es), .separate => x.goMain (.adding R es) (x.server.separate R)
  | .adding R es, .poolAdd =>
    if x.server.pool.length < QUEUE_SIZE then x.goMain (.handling es) (.ok (x.server.poolAdd R))
    else none
  | .handling [], .sweep script => do x.goMain .wait (← x.server.handleExpiredEvent script)
  | _, _ => none

/-- `serve` up to what it decides (requestData.cpp:109-197). -/
def serveStep (x : Sys) (w : Nat) (env : CallEnv) (R : ReqId) : Option (Except Fault Sys) :=
  match x.server.getRequest R with
  | .error f => some (.error f)
  | .ok r =>
    match (HPServer.serve env r).decision with
    | .halted _ => none
    | .delete => x.goWorker w (.deleting R) (.ok x.server)
    | .rearm r => x.goWorker w (.pushing R) (.ok (x.server.setRequest R r))

def workerStep (x : Sys) : Label → Option (Except Fault Sys)
  | .take w =>
    match x.worker w, x.server.pool with
    | .idle, R :: pool => x.goWorker w (.serving R) (.ok { x.server with pool := pool })
    | _, _ => none
  | .serve w env =>
    match x.worker w with
    | .serving R => x.serveStep w env R
    | _ => none
  | .delete w =>
    match x.worker w with
    | .deleting R | .failing R => x.goWorker w .idle (x.server.deleteRequest R)
    | _ => none
  | .rearmPush w T now =>
    match x.worker w with
    | .pushing R =>
      if (x.server.timer T).isUnborn ∧ x.server.clock ≤ now then
        x.goWorker w (.rearming R) (x.server.rearmPush R T now)
      else none
    | _ => none
  | .epollMod w done =>
    match x.worker w with
    | .rearming R => x.goWorker w (if done then .idle else .failing R) (x.server.epollMod R done)
    | _ => none
  | _ => none

def step (epollFd : Int) (x : Sys) (a : Label) : Option (Except Fault Sys) :=
  match a with
  | .take _ | .serve _ _ | .delete _ | .rearmPush _ _ _ | .epollMod _ _ => x.workerStep a
  | _ => x.mainStep epollFd x.main a

end Sys

/-- The threads, until something touches an object that is not live. -/
def threads (epollFd : Int) : Lts (Except Fault Sys) Label where
  init x := ∃ clock, x = .ok (.start clock)
  step x a :=
    match x with
    | .ok x => x.step epollFd a
    | .error _ => none

end HPServer
