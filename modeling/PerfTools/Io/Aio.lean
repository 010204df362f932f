import Mathlib.Data.Multiset.AddSub
import PerfTools.Lib.Machine

/-!
# The asynchronous I/O tools

io_queue keeps a number of requests in flight and submits each one again as soon as it is
complete; io_test submits batches and waits for all requests of a batch. The kernel is the
environment: it answers io_getevents with an error or with some of the outstanding requests.
Requests are named by their slot in the array ios. The calls on the context and on the file are
recorded, a submission together with the requests that were outstanding when it was made.

There is memory for the buffers: posix_memalign, which fails for a negative block size before any
of the loops, is taken to succeed. Where the offset of a request of io_test runs over, there is no
first state.
-/

namespace PerfTools.Io

open Memory Exec

/-- MAX_DEPTH -/
def maxDepth : Nat := 1024

/-- prog_opt, as far as the two main functions read it. -/
structure Options where
  write : Bool
  bs : Int
  count : Int
  depth : Int

structure Iocb where
  data : Nat
  write : Bool
  nbytes : Nat
  offset : Int
  deriving DecidableEq, Repr

inductive Call
  | submit (slots : List Nat) (pending : Multiset Nat)
  | getevents (minNr nr : Int)
  | close
  | destroy

/-- What io_getevents returns: a negative number, or the slots of completed requests. -/
inductive Answer
  | error (n : Int)
  | events (slots : List Nat)

/-- The array ios, and the state of the context: the requests in flight, the number of
completions handed out and the calls made so far. -/
structure Kernel where
  ios : List Iocb
  pending : Multiset Nat
  received : Nat
  calls : List Call

namespace Kernel

/-- io_submit, which accepts every request. -/
def submit (slots : List Nat) (k : Kernel) : Kernel :=
  { k with pending := k.pending + slots, calls := k.calls ++ [.submit slots k.pending] }

def record (c : Call) (k : Kernel) : Kernel := { k with calls := k.calls ++ [c] }

/-- The effect of io_getevents. -/
def harvest (a : Answer) (k : Kernel) : Kernel :=
  match a with
  | .error _ => k
  | .events slots =>
    { k with pending := k.pending - slots, received := k.received + slots.length }

/-- The data of the completed requests, as the array events holds them. -/
def eventData (k : Kernel) : Answer → List Nat
  | .error _ => []
  | .events slots => slots.filterMap fun s => k.ios[s]?.map Iocb.data

/-- Without a timeout there is at least one completion; there are never more than asked for, and
each is one of an outstanding request. -/
def MayReturn (k : Kernel) (timed : Bool) (nr : Int) (a : Answer) : Prop :=
  ∃ slots, a = .events slots ∧ (slots.length : Int) ≤ nr ∧ (slots : Multiset Nat) ≤ k.pending ∧
    (timed = false → slots ≠ [])

end Kernel

/-- The return value of io_getevents. -/
def Answer.value : Answer → Int
  | .error n => n
  | .events slots => slots.length

/-- The loop that fills in the requests, with the number of slots that remain. -/
def prepare (o : Options) (data : Nat → Nat) (offset : Nat → Except Fault Int) :
    Nat → Nat → List Iocb → Except Fault (List Iocb)
  | 0, _, ios => .ok ios
  | n + 1, i, ios =>
    if maxDepth ≤ i then .error .outOfBounds
    else do
      let off ← offset i
      prepare o data offset n (i + 1)
        (ios.set i ⟨data i, o.write, (o.bs % 2 ^ 64).toNat, off⟩)

/-- The array before it is filled in. -/
def zeroIos : List Iocb := List.replicate maxDepth ⟨0, false, 0, 0⟩

/-- The slots of the requests in iocbpp. -/
def allSlots (o : Options) : List Nat := List.range o.depth.toNat

/-! ## io_queue -/

/-- The variables of main in io_queue.c. -/
structure QueueVars where
  kernel : Kernel
  done : Int

/-- The requests of io_queue carry the number of their slot. The counter i is an unsigned long,
to which the depth and the block size are converted. -/
def queueSetup (o : Options) : Except Fault QueueVars := do
  let ios ← prepare o id (fun i => .ok (toInt64 ((o.bs % 2 ^ 64).toNat * i)))
    (o.depth % 2 ^ 64).toNat 0 zeroIos
  return ⟨Kernel.submit (allSlots o) ⟨ios, 0, 0, []⟩, 0⟩

def onKernel (f : Kernel → Kernel) : Exec QueueVars Unit :=
  modify fun v => { v with kernel := f v.kernel }

/-- The loop that submits completed requests again. -/
def resubmit : List Nat → Exec QueueVars Unit
  | [] => pure ()
  | index :: rest =>
    if maxDepth ≤ index then stop (.fault .outOfBounds)
    else do
      onKernel (Kernel.submit [index])
      resubmit rest

/-- One round of the loop in io_queue.c; after an error it goes on with the rest of the round. -/
def queueRound (o : Options) (a : Answer) : Exec QueueVars Bool := do
  let events := (← get).kernel.eventData a
  onKernel (Kernel.record (.getevents 1 o.depth))
  onKernel (Kernel.harvest a)
  let n := a.value
  runIf (n < 0) do
    onKernel (Kernel.record .close)
    onKernel (Kernel.record .destroy)
  if n = 0 then return true
  else do
    let total ← lift (checked ((← get).done + n))
    modify fun v => { v with done := total }
    resubmit events
    return !decide (o.count ≤ total)

/-- io_queue on a kernel that answers without errors. -/
def queueMachine (o : Options) : Machine Answer QueueVars where
  start v := queueSetup o = .ok v
  allowed v a := v.kernel.MayReturn false o.depth a
  round := queueRound o

/-! ## io_test -/

/-- The variables of main in io_test.c. -/
structure BatchVars where
  kernel : Kernel
  loops : Int
  totalReturn : Int

/-- The requests of io_test carry the address of their buffer; their offsets are int products. -/
def batchIos (o : Options) (buf : Nat → Nat) : Except Fault (List Iocb) :=
  prepare o buf (fun i => checked (o.bs * i)) o.depth.toNat 0 zeroIos

def onBatchKernel (f : Kernel → Kernel) : Exec BatchVars Unit :=
  modify fun v => { v with kernel := f v.kernel }

/-- The head of the outer loop, up to the inner one. -/
def nextBatch (o : Options) : Exec BatchVars Bool := do
  let old := (← get).loops
  let loops ← lift (checked (old + 1))
  modify fun v => { v with loops := loops }
  if old < o.count then
    onBatchKernel (Kernel.submit (allSlots o))
    modify fun v => { v with totalReturn := 0 }
    return true
  else return false

/-- One round of the inner loop; the result says whether the batch goes on. -/
def batchRound (o : Options) (a : Answer) : Exec BatchVars Bool := do
  onBatchKernel (Kernel.record (.getevents o.depth o.depth))
  onBatchKernel (Kernel.harvest a)
  let n := a.value
  runIf (n < 0) do
    onBatchKernel (Kernel.record .close)
    onBatchKernel (Kernel.record .destroy)
  if n = 0 then return true
  else do
    let total ← lift (checked ((← get).totalReturn + n))
    modify fun v => { v with totalReturn := total }
    return !decide (o.depth ≤ total)

/-- The round of the inner loop, with the head of the outer one when the batch is over. -/
def testRound (o : Options) (a : Answer) : Exec BatchVars Bool := do
  if ← batchRound o a then return true
  else nextBatch o

/-- io_test on a kernel that answers without errors, with the buffers that init_ios has got. -/
def testMachine (o : Options) (buf : Nat → Nat) : Machine Answer BatchVars where
  start v := ∃ ios, batchIos o buf = .ok ios ∧
    nextBatch o ⟨⟨ios, 0, 0, []⟩, 0, 0⟩ = (.ok true, v)
  allowed v a := v.kernel.MayReturn true o.depth a
  round := testRound o

end PerfTools.Io
