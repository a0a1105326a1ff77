import BurpTUI.Base.Executor
import BurpTUI.Proxy.InterceptManager

namespace BurpTUI

/-- The asynchronous operations of `Session` and `MitmSession`, and the posted callback. -/
inductive Op
  | timer
  | resolve
  | connect
  | clientRead
  | clientWrite (data : Bytes)
  | upstreamRead
  | upstreamWrite (data : Bytes)
  /-- a blind write to the server, for a tunnel -/
  | serverWrite (data : Bytes)
  /-- a write to the client before its handshake is done -/
  | rawWrite (data : Bytes)
  | established
  | clientHandshake
  | upstreamHandshake
  | decision (action : InterceptAction)
  deriving DecidableEq, Repr

/-- The operations that carry an exchange forward, apart from those that only time out or write
to the client. -/
inductive OpKind
  | read
  | dial
  | clientHandshake
  | upstreamHandshake
  | send
  | receive
  | decision (action : InterceptAction)
  | other
  deriving DecidableEq, Repr

def Op.kind : Op → OpKind
  | .clientRead => .read
  | .resolve => .dial
  | .connect => .dial
  | .established => .dial
  | .clientHandshake => .clientHandshake
  | .upstreamHandshake => .upstreamHandshake
  | .upstreamWrite _ => .send
  | .upstreamRead => .receive
  | .decision action => .decision action
  | _ => .other

/-- The error code, and the bytes that a read transferred. -/
inductive Outcome
  | ok
  | bytes (data : Bytes)
  | eof
  | truncated
  | aborted
  | failed
  deriving DecidableEq, Repr

/-- The size of `clientBuffer_`, `serverBuffer_` and `upstreamBuffer_`. -/
def bufferSize : ℕ := 8192

def Op.allows : Op → Outcome → Bool
  | .timer, .ok => true
  | .timer, _ => false
  | .clientRead, .bytes data => data != [] && data.length ≤ bufferSize
  | .upstreamRead, .bytes data => data != [] && data.length ≤ bufferSize
  | .clientRead, o => o == .eof || o == .truncated || o == .failed
  | .upstreamRead, o => o == .eof || o == .truncated || o == .failed
  | _, o => o == .ok || o == .failed

def Op.isTimer : Op → Bool
  | .timer => true
  | _ => false

def Op.onClientSocket : Op → Bool
  | .clientRead => true
  | .clientWrite _ => true
  | .rawWrite _ => true
  | .established => true
  | .clientHandshake => true
  | _ => false

def Op.onServerSocket : Op → Bool
  | .connect => true
  | .upstreamHandshake => true
  | .upstreamRead => true
  | .upstreamWrite _ => true
  | .serverWrite _ => true
  | _ => false

inductive Origin
  | generated
  | relayed
  deriving DecidableEq, Repr

inductive Side
  | client
  | upstream
  deriving DecidableEq, Repr

/-- What a session does, for others to see or for the record. -/
inductive Effect
  | read (data : Bytes)
  | took (ref : Ref) (request : HttpRequest)
  | tested (ref : Ref) (enabled : Bool)
  /-- `onDecision` is the request that the callback is made for -/
  | intercepted (item : InterceptedRequest Ref)
  | decided (ref : Ref) (action : InterceptAction)
  | handed (ref : Ref) (data : Bytes)
  | received (data : Bytes)
  | queued (origin : Origin) (data : Bytes)
  /-- a response that goes to the raw client socket, past the queue -/
  | answered (data : Bytes)
  | pushed (data : Bytes)
  /-- the write of a queued string is started -/
  | sent (side : Side) (data : Bytes)
  | wrote (data : Bytes)
  | upstreamEnded
  | clientFailed
  | reported (origin : Origin) (transaction : HttpTransaction)
  | removed (id : ℤ)
  | spawned (host : Bytes) (port : UInt16)
  | closed
  deriving DecidableEq, Repr

/-- The record of a completion, which precedes its handler. -/
def Op.completion (op : Op) (o : Outcome) : List Effect :=
  match op, o with
  | .clientWrite data, .ok => [.wrote data]
  | .upstreamRead, .eof => [.upstreamEnded]
  | op, o => if op.onClientSocket && (o == .eof || o == .truncated || o == .failed) then
      [.clientFailed] else []

theorem Op.mem_completion {op : Op} {o : Outcome} {e : Effect} (he : e ∈ op.completion o) :
    (∃ data, op = .clientWrite data ∧ o = .ok ∧ e = .wrote data) ∨
      (op = .upstreamRead ∧ o = .eof ∧ e = .upstreamEnded) ∨
      (op.onClientSocket = true ∧ (o = .eof ∨ o = .truncated ∨ o = .failed) ∧ e = .clientFailed) := by
  unfold Op.completion at he
  split at he
  · rename_i data
    exact .inl ⟨data, rfl, rfl, List.mem_singleton.mp he⟩
  · exact .inr (.inl ⟨rfl, rfl, List.mem_singleton.mp he⟩)
  · split at he
    · rename_i hfailed
      simp only [Bool.and_eq_true, Bool.or_eq_true, beq_iff_eq, or_assoc] at hfailed
      exact .inr (.inr ⟨hfailed.1, hfailed.2, List.mem_singleton.mp he⟩)
    · cases he

/-- What a handler finds outside its session: the counter, the address of the next
`HttpRequest`, the requests, the flag, the CA certificate, and whether there is an SSL context for the target. -/
structure Env where
  nextId : ℤ := 1
  newRef : Ref := 0
  heap : Ref → HttpRequest := fun _ => {}
  interceptEnabled : Bool := false
  caCert : Bytes := []
  caCertPath : Bytes := []
  sslContext : Bool := true

abbrev Io := Executor Op Outcome

def Op.weight (op : Op) (k : OpKind) : ℕ := if op.kind = k then 1 else 0

def Io.count (io : Io) (k : OpKind) : ℕ := io.outstanding fun op => op.kind == k

theorem toNat_weight (op : Op) (k : OpKind) : (op.kind == k).toNat = op.weight k := by
  unfold Op.weight
  split <;> simp [*]

@[simp] theorem Io.count_start (io : Io) (op : Op) (k : OpKind) :
    Io.count (io.start op) k = io.count k + op.weight k := by
  rw [← toNat_weight]
  exact Executor.outstanding_start io op _

@[simp] theorem Io.count_post (io : Io) (op : Op) (o : Outcome) (k : OpKind) :
    Io.count (io.post op o) k = io.count k + op.weight k := by
  rw [← toNat_weight]
  exact Executor.outstanding_post io op o _

@[simp] theorem Io.count_cancel (io : Io) (p : Op → Bool) (o : Outcome) (k : OpKind) :
    Io.count (io.cancel p o) k = io.count k := Executor.outstanding_cancel io p o _

theorem Io.count_complete {io io' : Io} {k : ℕ} {o : Outcome} {op : Op}
    (h : io.complete k o = some (op, io')) : io'.count = io.count :=
  funext fun _ => Executor.outstanding_complete h _

theorem Io.count_take {io io' : Io} {k : ℕ} {op : Op} {o : Outcome}
    (h : io.take k = some ((op, o), io')) : io.count = fun kind => io'.count kind + op.weight kind :=
  funext fun kind => by
    rw [← toNat_weight]
    exact Executor.outstanding_take h _

end BurpTUI
