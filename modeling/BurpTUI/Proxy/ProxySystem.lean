import BurpTUI.Proxy.MitmFlow
import BurpTUI.Proxy.SessionFlow
import Mathlib.Algebra.GroupWithZero.Nat

namespace BurpTUI

inductive Peer (L : Llhttp)
  | plain (s : Session L)
  | mitm (s : MitmSession L)

namespace Peer

variable {L : Llhttp}

def log : Peer L → List Effect
  | .plain s => s.log
  | .mitm s => s.log

def asked : Peer L → List Ref
  | .plain s => s.asked
  | .mitm s => s.asked

def complete (k : ℕ) (o : Outcome) : Peer L → Option (Peer L)
  | .plain s => (s.complete k o).map .plain
  | .mitm s => (s.complete k o).map .mitm

def dispatch (k : ℕ) (env : Env) : Peer L → Option (Except StdException (Peer L))
  | .plain s => (s.dispatch k env).map fun r => r.map .plain
  | .mitm s => (s.dispatch k env).map fun s => .ok (.mitm s)

def decided (ref : Ref) (action : InterceptAction) : Peer L → Peer L
  | .plain s => .plain (s.decided ref action)
  | .mitm s => .mitm (s.decided ref action)

def close : Peer L → Peer L
  | .plain s => .plain s.close
  | .mitm s => .mitm s.close

end Peer

/-- The callback that a session registers for a request. -/
structure OnDecision where
  peer : ℕ
  ref : Ref
  deriving DecidableEq, Repr

/-- The sessions on their event loop, the intercept manager and the UI thread. `between` holds the
requests whose session has read the flag as true and has not called `interceptRequest` yet, `taken`
those whose callback is still to be called. -/
structure ProxySystem (L : Llhttp) where
  manager : InterceptManager OnDecision := {}
  between : List (InterceptedRequest OnDecision) := []
  taken : List (InterceptManager.Taken OnDecision) := []
  peers : List (Peer L) := []
  heap : List HttpRequest := []
  nextId : ℤ := 1
  loopEnded : Bool := false

namespace ProxySystem

variable {L : Llhttp} (σ : ProxySystem L)

inductive Label
  | accept (hasCertCache : Bool)
  | complete (i k : ℕ) (o : Outcome)
  | dispatch (i k : ℕ) (caCert caCertPath : Bytes) (sslContext : Bool)
  | close (i : ℕ)
  | interceptRequest (k : ℕ)
  | storeEnabled (enabled : Bool)
  | forwardCurrent
  | dropCurrent
  | forwardAll
  | dropAll
  /-- the callback of a taken request is called -/
  | onDecision (k : ℕ)
  /-- the UI overwrites a request object -/
  | overwrite (ref : Ref) (request : HttpRequest)

def env (caCert caCertPath : Bytes) (sslContext : Bool) : Env where
  nextId := σ.nextId
  newRef := σ.heap.length
  heap ref := σ.heap[ref]?.getD {}
  interceptEnabled := σ.manager.interceptEnabled
  caCert := caCert
  caCertPath := caCertPath
  sslContext := sslContext

def tookRequest : Effect → Option HttpRequest
  | .took _ request => some request
  | _ => none

def interceptCall (i : ℕ) : Effect → Option (InterceptedRequest OnDecision)
  | .intercepted item => some { item with onDecision := { peer := i, ref := item.onDecision } }
  | _ => none

def removedId : Effect → Option ℤ
  | .removed id => some id
  | _ => none

def spawnedPeer : Effect → Option (Peer L)
  | .spawned host port => some (.mitm (MitmSession.started host port))
  | _ => none

/-- `std::atomic<int>` counted up `n` times. -/
def countUp (id : ℤ) (n : ℕ) : ℤ := Int.bmod (id + n) (2 ^ 32)

/-- Session number `i` is now `p`, and what it has done outside itself takes effect. -/
def absorb (i : ℕ) (p : Peer L) (es : List Effect) : ProxySystem L :=
  { σ with
    peers := σ.peers.set i p ++ es.filterMap spawnedPeer
    heap := σ.heap ++ es.filterMap tookRequest
    nextId := countUp σ.nextId (es.filterMap tookRequest).length
    between := σ.between ++ es.filterMap (interceptCall i)
    manager := (es.filterMap removedId).foldl InterceptManager.removeById σ.manager }

/-- A session goes from `p` to `q`. -/
def move (i : ℕ) (p q : Peer L) : ProxySystem L := σ.absorb i q (q.log.drop p.log.length)

/-- Requests taken from the queue wait for their callbacks. -/
def take (r : List (InterceptManager.Taken OnDecision) × InterceptManager OnDecision) : ProxySystem L :=
  { σ with manager := r.2, taken := σ.taken ++ r.1 }

def popFront (action : InterceptAction) : ProxySystem L :=
  let (taken, manager) := σ.manager.popFront action
  σ.take (taken.toList, manager)

def step (σ : ProxySystem L) : Label → Option (ProxySystem L)
  | .accept hasCertCache =>
    some { σ with peers := σ.peers ++ [.plain (Session.started hasCertCache)] }
  | .complete i k o =>
    match σ.peers[i]? with
    | some p => (p.complete k o).map (σ.move i p)
    | none => none
  | .dispatch i k caCert caCertPath sslContext =>
    if σ.loopEnded then none
    else match σ.peers[i]? with
      | some p =>
        match p.dispatch k (σ.env caCert caCertPath sslContext) with
        | some (.ok q) => some (σ.move i p q)
        | some (.error _) => some { σ with loopEnded := true }
        | none => none
      | none => none
  | .close i =>
    match σ.peers[i]? with
    | some p => some (σ.move i p p.close)
    | none => none
  | .interceptRequest k =>
    match σ.between[k]? with
    | some item =>
      some { σ with
        manager := σ.manager.interceptRequest item, between := σ.between.eraseIdx k }
    | none => none
  | .storeEnabled enabled => some { σ with manager := σ.manager.storeEnabled enabled }
  | .forwardCurrent => some (σ.popFront .forward)
  | .dropCurrent => some (σ.popFront .drop)
  | .forwardAll => some (σ.take σ.manager.forwardAll)
  | .dropAll => some (σ.take σ.manager.dropAll)
  | .onDecision k =>
    match σ.taken[k]? with
    | some (item, action) =>
      match σ.peers[item.onDecision.peer]? with
      | some p => some { σ with
          taken := σ.taken.eraseIdx k
          peers := σ.peers.set item.onDecision.peer (p.decided item.onDecision.ref action) }
      | none => none
    | none => none
  | .overwrite ref request => some { σ with heap := σ.heap.set ref request }

def system (L : Llhttp) : StepSystem.System (ProxySystem L) Label where
  init σ := σ = {}
  step := step

end ProxySystem

end BurpTUI
