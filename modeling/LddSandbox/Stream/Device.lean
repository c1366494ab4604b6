import LddSandbox.Schemes.CInt
import LddSandbox.Schemes.Threads
import LddSandbox.Stream.Abstract

/-! The blocking device (`06-char-dev-blocking`) and the poll device (`07-char-dev-poll`), as their
    `file_operations` run on any number of processes. The two drivers have the same `dev_open`,
    `dev_write` and `dev_release`; the poll device adds the `O_NONBLOCK` test to `dev_read`, and
    `dev_poll`.

    Each function below is one call of the driver, cut at every point where another process may
    run: a step takes or gives up the lock, makes one store to the device, tests the device, or
    does a copy. `wait_event_interruptible` joins the queue before it tests its condition, and
    sleeps only if the test failed and no wake-up came since it joined.

        read:   lock ▶ checkNonblock ▶ loop ───────────────────────▶ copy ▶ advance ▶ checkEmpty
                                      │ no data         data ▲             ▶ reset.. ▶ unlock ▶ wake
                                      ▼                      │
                                   unlockWait ▶ wait .. ▶ relock
        write:  lock ▶ checkFull (▶ resetRead ▶ resetWrite) ▶ copy ▶ advance ▶ unlock ▶ wake
        poll:   waitRead ▶ waitWrite ▶ lock ▶ checkRead ▶ checkWrite ▶ unlock ▶ sleep .. -/

namespace Ldd.Stream
open Ldd.Schemes Ldd.Kernel

/-- `#define BUF_LEN 1024`, in both drivers. -/
def bufLen : ℕ := 1024

/-- The two drivers. -/
inductive Driver | charDevBlocking | charDevPoll
  deriving DecidableEq, Repr

/-- Only the poll device looks at `O_NONBLOCK`. -/
def Driver.checksNonblock : Driver → Bool
  | .charDevBlocking => false
  | .charDevPoll => true

/-- The entries of the driver's `fops`. -/
def Driver.offers : Driver → Call → Bool
  | .charDevBlocking, .devPoll _ => false
  | _, _ => true

/-- `struct myblock_dev`, `struct mypoll_dev`. Fewer than `2^31` files are open at a time, so that
    `readers` and `writers` do not overflow. -/
structure Dev (ι : Type) where
  lock : Option ι
  buffer : Mem UInt8
  bufferSize : ℕ
  readPos : ℕ
  writePos : ℕ
  readers : ℤ
  writers : ℤ

/-- The device as `chardev_init` leaves it. -/
def chardevInit (ι : Type) : Dev ι where
  lock := none
  buffer := fun _ => 0
  bufferSize := bufLen
  readPos := 0
  writePos := 0
  readers := 0
  writers := 0

namespace Dev
variable {ι : Type}

def hasData (d : Dev ι) : Bool := decide (d.readPos < d.writePos)

def hasSpace (d : Dev ι) : Bool := decide (d.writePos < d.bufferSize)

/-- The bytes not read yet: `buffer[read_pos..write_pos)`. -/
def unread (d : Dev ι) : List UInt8 := d.buffer.load d.readPos (d.writePos - d.readPos)

def mutexUnlock (d : Dev ι) : Dev ι := { d with lock := none }

end Dev

/-- The two wait queues of the device. -/
inductive Queue | readQueue | writeQueue
  deriving DecidableEq, Repr

/-- The points of `wait_event_interruptible(dev->read_queue, has_data(dev))`; `woken` tells whether
    a wake-up came since the process joined the queue. -/
inductive WaitPc
  | enqueue
  | test (woken : Bool)
  | sleep (woken : Bool)
  | asleep
  deriving DecidableEq, Repr

/-- The points of `dev_read`; `bytes` are the bytes copied. -/
inductive ReadPc
  | lock
  | checkNonblock
  | unlockAgain
  | loop
  | unlockWait
  | wait (w : WaitPc)
  | relock
  | copy
  | unlockFault
  | advance (bytes : List UInt8)
  | checkEmpty (bytes : List UInt8)
  | resetRead (bytes : List UInt8)
  | resetWrite (bytes : List UInt8)
  | unlock (bytes : List UInt8)
  | wake (bytes : List UInt8)
  deriving DecidableEq, Repr

/-- The points of `dev_write`; `n` is `bytes_to_write`. The branch that resets a full buffer is told
    apart by the unread bytes it discarded. -/
inductive WritePc
  | lock
  | checkFull
  | resetRead
  | resetWrite (lost : List UInt8)
  | copy (lost : Option (List UInt8))
  | unlockFault (lost : Option (List UInt8))
  | advance (lost : Option (List UInt8)) (n : ℕ)
  | unlock (lost : Option (List UInt8)) (n : ℕ)
  | wake (lost : Option (List UInt8)) (n : ℕ)
  deriving DecidableEq, Repr

/-- The points of `dev_open` and `dev_release`. -/
inductive CountPc | lock | readers | writers | unlock
  deriving DecidableEq, Repr

/-- The points of `dev_poll`, and of the poll core around it: with the mask returned it either
    ends, sleeps, or (once triggered) calls `dev_poll` again. -/
inductive PollPc
  | waitRead
  | waitWrite
  | lock
  | checkRead
  | checkWrite (readable : Bool)
  | unlock (mask : Events)
  | sleep (mask : Events)
  | asleep
  deriving DecidableEq, Repr

/-- The poll table of a poller: the queues it is registered on, and whether one of them was woken
    since `dev_poll` was last called. -/
structure PollTable where
  onRead : Bool
  onWrite : Bool
  triggered : Bool
  deriving DecidableEq, Repr

def PollTable.on (t : PollTable) : Queue → Bool
  | .readQueue => t.onRead
  | .writeQueue => t.onWrite

/-- Where a process is: outside the driver, in a call, or about to return from a read or write. -/
inductive Pc
  | idle
  | devOpen (fmodeRead fmodeWrite : Bool) (k : CountPc)
  | devRead (nonblock : Bool) (len : ℕ) (k : ReadPc)
  | devWrite (data : List UInt8) (k : WritePc)
  | devPoll (awaited : Events) (t : PollTable) (k : PollPc)
  | devRelease (fmodeRead fmodeWrite : Bool) (k : CountPc)
  | ret (o : Outcome)
  deriving DecidableEq, Repr

/-- What a step shows: a call begins, its outcome is settled (at the end of its last critical
    section, or where a signal ends it), it returns, a queue is woken, or nothing. -/
inductive Act
  | tau
  | call (c : Call)
  | settle (o : Outcome)
  | ret (o : Outcome)
  | wakeUp (q : Queue)
  deriving DecidableEq, Repr

/-- What the environment decides in a step: whether a signal arrives, how a copy ends, and the call
    an idle process makes. -/
structure Choice where
  signal : Bool := false
  fault : Fault := {}
  call : Call := .devOpen false false

/-- A step is undisturbed by default. -/
instance : Inhabited Choice := ⟨{}⟩

section Calls
variable {ι : Type} (drv : Driver) (p : ι) (g : Choice) (d : Dev ι)

/-- `mutex_lock`: no step while another process has the lock. -/
def mutexLock (k : Pc) : Option (Dev ι × Pc × Act) :=
  if d.lock.isNone then some ({ d with lock := some p }, k, .tau) else none

/-- A call that a signal ends with `-ERESTARTSYS`. -/
def interrupted (c : Call) : Outcome := ⟨c, .signal, -ERESTARTSYS, [], []⟩

/-- `if (mutex_lock_interruptible(&dev->lock)) return -ERESTARTSYS;` -/
def mutexLockInterruptible (c : Call) (k : Pc) : Option (Dev ι × Pc × Act) :=
  if g.signal then some (d, .ret (interrupted c), .settle (interrupted c)) else mutexLock p d k

/-- `dev_open` (`by_ = 1`) and `dev_release` (`by_ = -1`): count the file's readers and writers. -/
def countFile (by_ : ℤ) (fmodeRead fmodeWrite : Bool) (here : CountPc → Pc) :
    CountPc → Option (Dev ι × Pc × Act)
  | .lock => mutexLock p d (here .readers)
  | .readers =>
    some (if fmodeRead then { d with readers := d.readers + by_ } else d, here .writers, .tau)
  | .writers =>
    some (if fmodeWrite then { d with writers := d.writers + by_ } else d, here .unlock, .tau)
  | .unlock => some (d.mutexUnlock, .idle, .tau)

def devOpen (fmodeRead fmodeWrite : Bool) : CountPc → Option (Dev ι × Pc × Act) :=
  countFile p d 1 fmodeRead fmodeWrite (.devOpen fmodeRead fmodeWrite)

def devRelease (fmodeRead fmodeWrite : Bool) : CountPc → Option (Dev ι × Pc × Act) :=
  countFile p d (-1) fmodeRead fmodeWrite (.devRelease fmodeRead fmodeWrite)

/-- One step of `wait_event_interruptible(dev->read_queue, has_data(dev))` in `dev_read`. A process
    asleep leaves on its own only when a signal (or a spurious wake-up) makes it look again. -/
def waitEvent (c : Call) (here : ReadPc → Pc) : WaitPc → Option (Dev ι × Pc × Act)
  | .enqueue => some (d, here (.wait (.test false)), .tau)
  | .test woken =>
    some (d, here (if d.hasData then .relock else .wait (.sleep woken)), .tau)
  | .sleep woken =>
    if g.signal then some (d, .ret (interrupted c), .settle (interrupted c))
    else some (d, here (.wait (if woken then .enqueue else .asleep)), .tau)
  | .asleep => if g.signal then some (d, here (.wait .enqueue), .tau) else none

/-- `bytes_to_read`: the unread bytes, cut to `len`. -/
def bytesToRead (len : ℕ) : ℕ :=
  let n := usub d.writePos d.readPos
  if n > len then len else n

/-- `bytes_to_write`: the room behind `write_pos`, cut to the length of the data. -/
def bytesToWrite (data : List UInt8) : ℕ :=
  let n := usub d.bufferSize d.writePos
  if n > data.length then data.length else n

/-- `dev_read`. -/
def devRead (nonblock : Bool) (len : ℕ) : ReadPc → Option (Dev ι × Pc × Act)
  | .lock =>
    mutexLockInterruptible p g d call (here (if drv.checksNonblock then .checkNonblock else .loop))
  | .checkNonblock =>
    some (d, here (if nonblock && !d.hasData then .unlockAgain else .loop), .tau)
  | .unlockAgain =>
    let o : Outcome := ⟨call, .again, -EAGAIN, [], []⟩
    some (d.mutexUnlock, .ret o, .settle o)
  | .loop => some (d, here (if d.hasData then .copy else .unlockWait), .tau)
  | .unlockWait => some (d.mutexUnlock, here (.wait .enqueue), .tau)
  | .wait w => waitEvent g d call here w
  | .relock => mutexLockInterruptible p g d call (here .loop)
  | .copy =>
    let (bytes, left) := copyToUser d.buffer d.readPos (bytesToRead d len) g.fault
    some (d, here (if left ≠ 0 then .unlockFault else .advance bytes), .tau)
  | .unlockFault =>
    let o : Outcome := ⟨call, .fault, -EFAULT, [], []⟩
    some (d.mutexUnlock, .ret o, .settle o)
  | .advance bytes =>
    some ({ d with readPos := uadd d.readPos bytes.length }, here (.checkEmpty bytes), .tau)
  | .checkEmpty bytes =>
    some (d, here (if d.readPos ≥ d.writePos then .resetRead bytes else .unlock bytes), .tau)
  | .resetRead bytes => some ({ d with readPos := 0 }, here (.resetWrite bytes), .tau)
  | .resetWrite bytes => some ({ d with writePos := 0 }, here (.unlock bytes), .tau)
  | .unlock bytes =>
    some (d.mutexUnlock, here (.wake bytes), .settle ⟨call, .done, bytes.length, bytes, []⟩)
  | .wake bytes =>
    some (d, .ret ⟨call, .done, bytes.length, bytes, []⟩, .wakeUp .writeQueue)
where
  call : Call := .devRead nonblock len
  here (k : ReadPc) : Pc := .devRead nonblock len k

/-- `dev_write`. -/
def devWrite (data : List UInt8) : WritePc → Option (Dev ι × Pc × Act)
  | .lock => mutexLockInterruptible p g d call (here .checkFull)
  | .checkFull => some (d, here (if !d.hasSpace then .resetRead else .copy none), .tau)
  | .resetRead => some ({ d with readPos := 0 }, here (.resetWrite d.unread), .tau)
  | .resetWrite lost => some ({ d with writePos := 0 }, here (.copy (some lost)), .tau)
  | .copy lost =>
    let n := bytesToWrite d data
    let (buffer, left) := copyFromUser d.buffer d.writePos data n g.fault
    some ({ d with buffer := buffer },
      here (if left ≠ 0 then .unlockFault lost else .advance lost n), .tau)
  | .unlockFault lost =>
    let o : Outcome := ⟨call, .fault, -EFAULT, [], lost.getD []⟩
    some (d.mutexUnlock, .ret o, .settle o)
  | .advance lost n =>
    some ({ d with writePos := uadd d.writePos n }, here (.unlock lost n), .tau)
  | .unlock lost n =>
    some (d.mutexUnlock, here (.wake lost n), .settle ⟨call, .done, n, [], lost.getD []⟩)
  | .wake lost n => some (d, .ret ⟨call, .done, n, [], lost.getD []⟩, .wakeUp .readQueue)
where
  call : Call := .devWrite data
  here (k : WritePc) : Pc := .devWrite data k

/-- `dev_poll`, and the poll core that calls it. -/
def devPoll (awaited : Events) (t : PollTable) : PollPc → Option (Dev ι × Pc × Act)
  | .waitRead => some (d, .devPoll awaited { t with onRead := true } .waitWrite, .tau)
  | .waitWrite => some (d, .devPoll awaited { t with onWrite := true } .lock, .tau)
  | .lock => mutexLock p d (here .checkRead)
  | .checkRead => some (d, here (.checkWrite d.hasData), .tau)
  | .checkWrite readable => some (d, here (.unlock ⟨readable, d.hasSpace⟩), .tau)
  | .unlock mask => some (d.mutexUnlock, here (.sleep mask), .tau)
  | .sleep mask =>
    if mask.meets awaited || g.signal then some (d, .idle, .tau)
    else if t.triggered then
      some (d, .devPoll awaited { t with triggered := false } .waitRead, .tau)
    else some (d, here .asleep, .tau)
  | .asleep => if g.signal then some (d, .idle, .tau) else none
where
  here (k : PollPc) : Pc := .devPoll awaited t k

/-- A call begins. -/
def enter : Call → Pc
  | .devOpen r w => .devOpen r w .lock
  | .devRead nonblock len => .devRead nonblock len .lock
  | .devWrite data => .devWrite data .lock
  | .devPoll awaited => .devPoll awaited ⟨false, false, false⟩ .waitRead
  | .devRelease r w => .devRelease r w .lock

end Calls

/-- `wake_up_interruptible`: a reader on the queue stops waiting, a poller registered on it is
    triggered. -/
def wakeUp (q : Queue) : Pc → Pc
  | .devRead nb len (.wait w) =>
    match q, w with
    | .readQueue, .test _ => .devRead nb len (.wait (.test true))
    | .readQueue, .sleep _ => .devRead nb len (.wait (.sleep true))
    | .readQueue, .asleep => .devRead nb len (.wait .enqueue)
    | _, w => .devRead nb len (.wait w)
  | .devPoll awaited t k =>
    if t.on q then
      match k with
      | .asleep => .devPoll awaited { t with triggered := false } .waitRead
      | k => .devPoll awaited { t with triggered := true } k
    else .devPoll awaited t k
  | k => k

/-- The driver as a program of its processes. -/
def fops (ι : Type) (drv : Driver) : Program ι (Dev ι) Pc Choice Act where
  next p g d
    | .idle => if drv.offers g.call then some (d, enter g.call, .call g.call) else none
    | .devOpen r w k => devOpen p d r w k
    | .devRead nonblock len k => devRead drv p g d nonblock len k
    | .devWrite data k => devWrite p g d data k
    | .devPoll awaited t k => devPoll p g d awaited t k
    | .devRelease r w k => devRelease p d r w k
    | .ret o => some (d, .idle, .ret o)
  hear
    | .wakeUp q => wakeUp q
    | _ => id

/-- The device freshly loaded, every process outside the driver. -/
def loaded (ι : Type) : Conf ι (Dev ι) Pc := ⟨chardevInit ι, fun _ => .idle⟩

end Ldd.Stream
