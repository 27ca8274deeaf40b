import BanjOS.Lib.LinkQueue
import BanjOS.Processes.Frames
import BanjOS.Processes.Runs

/-!
# The ATA driver

`ata_48_read_block`, the request queue it uses and `read_block_handler` (`block_device.c`), for any number of
threads that read from one drive. The drive serves one `READ SECTORS EXT` at a time. The driver is taken
apart into the steps between which an interrupt, a step of the drive or a context switch can fall
(`AtaStep`); between `CLI` and `STI` only the drive can move.
-/

namespace BanjOS

/-! ## Requests -/

/-- `struct ATARequest`, but for its `block_queue`: the head of that is in the scheduler's state, at
`blockQueue`. -/
structure AtaRequest where
  blkNum : Nat
  next : Nat

/-- `&req->block_queue`. -/
abbrev blockQueue (req : Nat) : Nat := req + 8

/-- The request queue of `struct ATABlockDevice`, with the requests by address. -/
structure AtaQueue where
  reqs : Nat → AtaRequest
  reqHead : Nat
  reqTail : Nat

namespace AtaQueue

/-- `req->next`. -/
def next (ata : AtaQueue) (req : Nat) : Nat := (ata.reqs req).next

/-- `req->next = v`. -/
def setNext (ata : AtaQueue) (req v : Nat) : AtaQueue :=
  { ata with reqs := Function.update ata.reqs req { ata.reqs req with next := v } }

/-- `req->blk_num = v`. -/
def setBlkNum (ata : AtaQueue) (req v : Nat) : AtaQueue :=
  { ata with reqs := Function.update ata.reqs req { ata.reqs req with blkNum := v } }

section
variable (ata : AtaQueue) (req v : Nat)

@[simp] theorem setNext_next : (ata.setNext req v).next = Function.update ata.next req v :=
  funext fun r => Function.apply_update (fun _ => AtaRequest.next) ata.reqs req _ r

@[simp] theorem setBlkNum_next : (ata.setBlkNum req v).next = ata.next := by
  funext r
  exact (Function.apply_update (fun _ => AtaRequest.next) ata.reqs req _ r).trans
    (congrFun (Function.update_eq_self req ata.next) r)

@[simp] theorem setNext_blkNum (r : Nat) : ((ata.setNext req v).reqs r).blkNum = (ata.reqs r).blkNum :=
  (Function.apply_update (fun _ => AtaRequest.blkNum) ata.reqs req _ r).trans
    (congrFun (Function.update_eq_self req fun r => (ata.reqs r).blkNum) r)

@[simp] theorem setBlkNum_blkNum : ((ata.setBlkNum req v).reqs req).blkNum = v := by
  simp [setBlkNum]

theorem setBlkNum_blkNum_of_ne {r : Nat} (h : r ≠ req) :
    ((ata.setBlkNum req v).reqs r).blkNum = (ata.reqs r).blkNum := by
  simp [setBlkNum, Function.update_of_ne h]

@[simp] theorem setNext_reqTail : (ata.setNext req v).reqTail = ata.reqTail := rfl

@[simp] theorem setNext_reqHead : (ata.setNext req v).reqHead = ata.reqHead := rfl

end

end AtaQueue

/-- `ata_req_queue`. -/
def ataReqQueue (ata : AtaQueue) (req : Nat) : AtaQueue :=
  let ata := ata.setNext req 0
  if ata.reqTail ≠ 0 then { ata.setNext ata.reqTail req with reqTail := req }
  else { ata with reqHead := req, reqTail := req }

/-- `ata_req_unqueue`. -/
def ataReqUnqueue (ata : AtaQueue) : Nat × AtaQueue :=
  if ata.reqHead = 0 then (0, ata)
  else
    let req := ata.reqHead
    let ata := { ata with reqHead := ata.next req }
    let ata := if ata.reqHead = 0 then { ata with reqTail := ata.reqHead } else ata
    (req, ata.setNext req 0)

/-- The requests of the queue, in order. -/
def IsReqQueue (ata : AtaQueue) (l : List Nat) : Prop := IsLinkQueue 0 ata.next ata.reqHead ata.reqTail l

section
variable {ata : AtaQueue} {l : List Nat} {req : Nat}

/-- `ata_req_queue` puts a request at the end. -/
theorem IsReqQueue.queue (h : IsReqQueue ata l) (hr : req ≠ 0) (hrl : req ∉ l) :
    IsReqQueue (ataReqQueue ata req) (l ++ [req]) := by
  by_cases ht : ata.reqTail = 0
  · obtain rfl := (IsLinkQueue.tail_eq_null h).1 ht
    have hq : ataReqQueue ata req = { ata.setNext req 0 with reqHead := req, reqTail := req } :=
      if_neg (not_not.2 ht)
    have hpush : IsLinkQueue 0 (Function.update ata.next req 0) req req [req] := .push_nil hr
    rw [← AtaQueue.setNext_next] at hpush
    rw [hq]
    exact hpush
  · have hl : l ≠ [] := fun hl => ht ((IsLinkQueue.tail_eq_null h).2 hl)
    have hq : ataReqQueue ata req =
        { (ata.setNext req 0).setNext ata.reqTail req with reqTail := req } := if_pos ht
    have hpush := IsLinkQueue.push h hl hr hrl
    rw [← AtaQueue.setNext_next, ← AtaQueue.setNext_next] at hpush
    rw [hq]
    exact hpush

/-- The block numbers do not matter for the queue. -/
theorem IsReqQueue.setBlkNum (h : IsReqQueue ata l) (v : Nat) : IsReqQueue (ata.setBlkNum req v) l := by
  rw [IsReqQueue, AtaQueue.setBlkNum_next]
  exact h

/-- The first request of a queue that is not empty. -/
theorem IsReqQueue.head_cons (h : IsReqQueue ata (req :: l)) : ata.reqHead = req := h.head_eq

/-- `ata_req_unqueue` takes the first request off. -/
theorem IsReqQueue.unqueue (h : IsReqQueue ata (req :: l)) :
    (ataReqUnqueue ata).1 = req ∧ IsReqQueue (ataReqUnqueue ata).2 l := by
  obtain rfl : ata.reqHead = req := h.head_eq
  have hne : ata.reqHead ≠ 0 := fun h0 => List.cons_ne_nil _ _ ((IsLinkQueue.head_eq_null h).1 h0)
  have hpop := IsLinkQueue.pop h
  rw [← AtaQueue.setNext_next] at hpop
  rw [ataReqUnqueue, if_neg hne]
  refine ⟨rfl, ?_⟩
  dsimp only
  split at hpop
  case isTrue h0 =>
    rw [if_pos h0, h0]
    rw [h0] at hpop
    exact hpop
  case isFalse h0 =>
    rw [if_neg h0]
    exact hpop

/-- The block numbers stay what they are. -/
@[simp] theorem ataReqQueue_blkNum (r : Nat) : ((ataReqQueue ata req).reqs r).blkNum = (ata.reqs r).blkNum := by
  simp only [ataReqQueue]
  split <;> simp

@[simp] theorem ataReqUnqueue_blkNum (r : Nat) :
    ((ataReqUnqueue ata).2.reqs r).blkNum = (ata.reqs r).blkNum := by
  simp only [ataReqUnqueue]
  split
  · rfl
  · split <;> simp

end

/-! ## The drive -/

/-- The registers of the drive that hold a sector count and an address. Each keeps the last two bytes
written to it. -/
inductive AtaReg
  | secCnt
  | secNum
  | cylLo
  | cylHi
  deriving DecidableEq

/-- What the drive does: nothing, looking for the sector `lba`, or handing out its words, the next one
being `pos`. -/
inductive DriveState
  | idle
  | busy (lba : Nat)
  | ready (lba pos : Nat)
  deriving DecidableEq

/-- The drive: for each register the byte before the last one and the last one, what it does, and whether
it asks for an interrupt. -/
structure Drive where
  regs : AtaReg → UInt8 × UInt8
  state : DriveState
  irq : Bool

namespace Drive

/-- `outb` to a register of the drive. -/
def outb (d : Drive) (reg : AtaReg) (v : UInt8) : Drive :=
  { d with regs := Function.update d.regs reg ((d.regs reg).2, v) }

/-- The 48-bit address in the registers. -/
def lba (d : Drive) : Nat :=
  (d.regs .secNum).2.toNat + 2 ^ 8 * (d.regs .cylLo).2.toNat + 2 ^ 16 * (d.regs .cylHi).2.toNat +
    2 ^ 24 * (d.regs .secNum).1.toNat + 2 ^ 32 * (d.regs .cylLo).1.toNat +
    2 ^ 40 * (d.regs .cylHi).1.toNat

/-- The sector count in the registers. -/
def sectorCount (d : Drive) : Nat := (d.regs .secCnt).2.toNat + 2 ^ 8 * (d.regs .secCnt).1.toNat

/-- `outb(base + REG_CMD, CMD_READ_SECTORS_EXT)`: one command at a time, and for one sector. -/
def readSectorsExt (d : Drive) : Drive :=
  if d.state = .idle ∧ d.sectorCount = 1 then { d with state := .busy d.lba } else d

/-- `inb` of the alternate status: `STATUS_RDY`, `STATUS_BSY`, or `STATUS_RDY | STATUS_DRQ`. -/
def altStatus (d : Drive) : UInt8 :=
  match d.state with
  | .idle => 0x40
  | .busy _ => 0x80
  | .ready _ _ => 0x48

/-- `inb` of the status: the drive takes back its request for an interrupt. -/
def readStatus (d : Drive) : Drive := { d with irq := false }

/-- `inw` of the data register: the next word, and `DRQ` is dropped after the last one. Where there is no
data the value is `noData`. -/
def inw (disk : Nat → Nat → UInt16) (noData : UInt16) (d : Drive) : UInt16 × Drive :=
  match d.state with
  | .ready lba pos =>
    (disk lba pos, { d with state := if pos + 1 = 256 then .idle else .ready lba (pos + 1) })
  | _ => (noData, d)

end Drive

/-- `(status & STATUS_BSY) || !(status & (STATUS_DRQ | STATUS_ERR))`. -/
def mustWait (status : UInt8) : Bool := status &&& 0x80 ≠ 0 || status &&& 0x09 = 0

/-- `ata_req_execute`. The loop before it reads the data register until bit 7 is clear, which leaves an idle
drive alone. -/
def ataReqExecute (blkNum : Nat) (d : Drive) : Drive :=
  let sectorCount := 1
  let d := d.outb .secCnt (UInt8.ofNat (sectorCount >>> 8))
  let d := d.outb .secNum (UInt8.ofNat (blkNum >>> 24))
  let d := d.outb .cylLo (UInt8.ofNat (blkNum >>> 32))
  let d := d.outb .cylHi (UInt8.ofNat (blkNum >>> 40))
  let d := d.outb .secCnt (UInt8.ofNat sectorCount)
  let d := d.outb .secNum (UInt8.ofNat blkNum)
  let d := d.outb .cylLo (UInt8.ofNat (blkNum >>> 8))
  let d := d.outb .cylHi (UInt8.ofNat (blkNum >>> 16))
  d.readSectorsExt

section
variable {d : Drive}

/-- A thread waits unless data is there. -/
theorem mustWait_altStatus : mustWait d.altStatus = false ↔ ∃ lba pos, d.state = .ready lba pos := by
  rw [Drive.altStatus]
  cases d.state with
  | idle => exact iff_of_false (by decide) (by simp)
  | busy lba => exact iff_of_false (show ¬ mustWait 0x80 = false by decide) (by simp)
  | ready lba pos => exact iff_of_true (show mustWait 0x48 = false by decide) ⟨lba, pos, rfl⟩

/-- An idle drive is given the sector of the request. -/
theorem ataReqExecute_state (hidle : d.state = .idle) {blkNum : Nat} (hblk : blkNum < 2 ^ 48) :
    (ataReqExecute blkNum d).state = .busy blkNum := by
  simp [ataReqExecute, Drive.readSectorsExt, Drive.outb, Drive.sectorCount, Drive.lba, hidle,
    Nat.shiftRight_eq_div_pow]
  omega

end

/-! ## Threads -/

/-- Where a thread is in `ata_48_read_block`, between two steps. -/
inductive ReadPoint
  /-- Not in `ata_48_read_block`. -/
  | outside
  /-- After `CLI`, before the status is read. -/
  | poll
  /-- There is no data: before `PROC_block_on`. -/
  | block
  /-- After `STI` in `PROC_block_on`, in `yield` before `PROC_reschedule`. -/
  | yielding
  /-- Before `int $0x80`. -/
  | rescheduled
  /-- Back in the loop, before `CLI`. -/
  | resumed
  /-- After `STI`, with `i` words read. -/
  | reading (i : Nat)
  deriving DecidableEq

/-- The points between `CLI` and `STI`. -/
def ReadPoint.Critical (pt : ReadPoint) : Prop := pt = poll ∨ pt = block

instance ReadPoint.decidableCritical (pt : ReadPoint) : Decidable pt.Critical := inferInstanceAs (Decidable (_ ∨ _))

/-- A call of `ata_48_read_block`: the sector it asks for, its request and the words of its buffer. -/
structure AtaCall where
  blkNum : Nat
  req : Nat
  dst : Nat → UInt16

/-- The scheduler and its live threads, the request queue and the requests that are allocated, the drive,
where each thread is and its call, and the calls that have returned. -/
structure AtaSystem where
  sched : Sched
  live : List Nat
  ata : AtaQueue
  allocated : List Nat
  drive : Drive
  point : Nat → ReadPoint
  call : Nat → AtaCall
  returned : List AtaCall

namespace AtaSystem

/-- Where the running thread is. -/
def here (k : AtaSystem) : ReadPoint := k.point k.sched.curProc

/-- The call of the running thread. -/
def hereCall (k : AtaSystem) : AtaCall := k.call k.sched.curProc

/-- The running thread moves on. -/
def move (k : AtaSystem) (pt : ReadPoint) : AtaSystem :=
  { k with point := Function.update k.point k.sched.curProc pt }

@[simp] theorem move_point_cur (k : AtaSystem) (pt : ReadPoint) :
    (k.move pt).point k.sched.curProc = pt := Function.update_self ..

@[simp] theorem move_here (k : AtaSystem) (pt : ReadPoint) : (k.move pt).here = pt :=
  Function.update_self ..

theorem move_self (k : AtaSystem) : k.move k.here = k := by
  rw [move, here, Function.update_eq_self]

@[simp] theorem move_sched (k : AtaSystem) (pt : ReadPoint) : (k.move pt).sched = k.sched := rfl

@[simp] theorem move_drive (k : AtaSystem) (pt : ReadPoint) : (k.move pt).drive = k.drive := rfl

@[simp] theorem move_hereCall (k : AtaSystem) (pt : ReadPoint) : (k.move pt).hereCall = k.hereCall := rfl

theorem move_point_of_ne (k : AtaSystem) (pt : ReadPoint) {n : Nat} (hn : n ≠ k.sched.curProc) :
    (k.move pt).point n = k.point n := Function.update_of_ne hn ..

/-- `ata_48_read_block` up to the first read of the status: `kmalloc` of the request `req`, `CLI` and
`ata_req_queue_execute`. -/
def start (k : AtaSystem) (blkNum req : Nat) (dst : Nat → UInt16) : AtaSystem :=
  let ata := k.ata.setBlkNum req blkNum
  { k.move .poll with
    sched := k.sched.setHead (blockQueue req) 0
    ata := ataReqQueue ata req
    allocated := req :: k.allocated
    drive := if ata.reqHead = 0 then ataReqExecute blkNum k.drive else k.drive
    call := Function.update k.call k.sched.curProc ⟨blkNum, req, dst⟩ }

/-- A word is read into the buffer. -/
def word (k : AtaSystem) (disk : Nat → Nat → UInt16) (noData : UInt16) (i : Nat) : AtaSystem :=
  let (w, drive) := k.drive.inw disk noData
  { k.move (.reading (i + 1)) with
    drive
    call := Function.update k.call k.sched.curProc
      { k.hereCall with dst := Function.update k.hereCall.dst i w } }

/-- `kfree(ata_req_unqueue(ata))`, and the call returns. -/
def unqueue (k : AtaSystem) : AtaSystem :=
  let (req, ata) := ataReqUnqueue k.ata
  { k.move .outside with
    ata
    allocated := k.allocated.erase req
    returned := k.hereCall :: k.returned }

end AtaSystem

/-- The steps of the threads in `ata_48_read_block`, of the drive, of `read_block_handler` and of everything
else. `disk` is what is on the drive and `queues` the queues of the rest of the kernel. Interrupts are
enabled where a thread is not between `CLI` and `STI`. -/
inductive AtaStep (st : ProcStatics) (disk : Nat → Nat → UInt16) (queues : Nat → Prop) :
    AtaSystem → AtaSystem → Prop
  /-- A thread calls `ata_48_read_block` for a sector of the drive, and `kmalloc` gives it a block that is
  not in use. -/
  | start {k : AtaSystem} (blkNum req : Nat) (dst : Nat → UInt16) : k.sched.curProc ∈ k.live →
    k.here = .outside → blkNum < 2 ^ 48 → req ≠ 0 → req ∉ k.allocated →
    blockQueue req ≠ st.availProcs → ¬ queues (blockQueue req) →
    AtaStep st disk queues k (k.start blkNum req dst)
  /-- The status says that the data is there: `STI`. -/
  | ready {k : AtaSystem} : k.here = .poll → mustWait k.drive.altStatus = false →
    AtaStep st disk queues k (k.move (.reading 0))
  /-- The status says that it is not. -/
  | wait {k : AtaSystem} : k.here = .poll → mustWait k.drive.altStatus = true →
    AtaStep st disk queues k (k.move .block)
  /-- `PROC_block_on(&ata->req_head->block_queue, true)` up to `STI`. Without a head it accesses the first
  page, which is not mapped. -/
  | park {k : AtaSystem} {s₁ s₂ : Sched} : k.here = .block → k.ata.reqHead ≠ 0 →
    unlinkProc k.sched.curProc st.availProcs k.sched = .ok s₁ →
    appendProc k.sched.curProc (blockQueue k.ata.reqHead) s₁ = .ok s₂ →
    AtaStep st disk queues k { k.move .yielding with sched := s₂ }
  /-- `PROC_reschedule`. -/
  | reschedule {k : AtaSystem} {s : Sched} : k.here = .yielding → procReschedule st k.sched = .ok s →
    AtaStep st disk queues k { k.move .rescheduled with sched := s }
  /-- `int $0x80`: the thread will go on in the loop. -/
  | int80 {k : AtaSystem} (rsp : Nat) {s : Sched} : k.here = .rescheduled →
    contextSwitch st rsp k.sched = .ok s →
    AtaStep st disk queues k { k.move .resumed with sched := s }
  /-- Any other interrupt also ends with a switch to `next_proc`. -/
  | switch {k : AtaSystem} (rsp : Nat) {s : Sched} : ¬ k.here.Critical →
    contextSwitch st rsp k.sched = .ok s → AtaStep st disk queues k { k with sched := s }
  /-- `CLI` in the loop. -/
  | cli {k : AtaSystem} : k.here = .resumed → AtaStep st disk queues k (k.move .poll)
  /-- A word of data. -/
  | word {k : AtaSystem} {i : Nat} (noData : UInt16) : k.here = .reading i → i < 256 →
    AtaStep st disk queues k (k.word disk noData i)
  /-- After the last word. -/
  | unqueue {k : AtaSystem} : k.here = .reading 256 → AtaStep st disk queues k k.unqueue
  /-- The drive has found the sector and asks for an interrupt. -/
  | drive {k : AtaSystem} {lba : Nat} : k.drive.state = .busy lba →
    AtaStep st disk queues k { k with drive := { k.drive with state := .ready lba 0, irq := true } }
  /-- `read_block_handler`, when no thread waits on the first request. -/
  | irqNone {k : AtaSystem} : ¬ k.here.Critical → k.drive.irq = true → k.ata.reqHead ≠ 0 →
    k.sched.head (blockQueue k.ata.reqHead) = 0 →
    AtaStep st disk queues k { k with drive := k.drive.readStatus }
  /-- `read_block_handler`, when a thread does. -/
  | irq {k : AtaSystem} {s : Sched} : ¬ k.here.Critical → k.drive.irq = true → k.ata.reqHead ≠ 0 →
    k.sched.head (blockQueue k.ata.reqHead) ≠ 0 →
    procUnblockHead st (blockQueue k.ata.reqHead) k.sched = .ok s →
    AtaStep st disk queues k { k with drive := k.drive.readStatus, sched := s }
  /-- Code outside of `ata_48_read_block` creates a thread, -/
  | create {k : AtaSystem} (ctx frame node : Nat) {pid : Nat} {s : Sched} : k.here = .outside → ctx ≠ 0 →
    node ≠ 0 → node ≠ st.sourceProc → node ∉ k.live →
    procCreateKthread st ctx frame node k.sched = .ok (pid, s) →
    AtaStep st disk queues k { k with sched := s, live := node :: k.live }
  /-- starts the threads, -/
  | run {k : AtaSystem} (rsp : Nat) {s : Sched} : k.here = .outside → procRun st rsp k.sched = .ok s →
    AtaStep st disk queues k { k with sched := s }
  /-- yields, -/
  | yield {k : AtaSystem} (rsp : Nat) {s : Sched} : k.here = .outside → yield st rsp k.sched = .ok s →
    AtaStep st disk queues k { k with sched := s }
  /-- blocks on another queue -/
  | blockOn {k : AtaSystem} (queue rsp : Nat) {s : Sched} : k.here = .outside → queues queue →
    procBlockOn st queue rsp k.sched = .ok s → AtaStep st disk queues k { k with sched := s }
  /-- or ends its thread. -/
  | exit {k : AtaSystem} (rsp : Nat) {freed : List Nat} {s : Sched} : k.here = .outside →
    kexit st rsp k.sched = .ok (freed, s) →
    AtaStep st disk queues k { k with sched := s, live := k.live.erase k.sched.curProc }
  /-- It, or the handler of another interrupt, unblocks the first thread of another queue -/
  | unblockHead {k : AtaSystem} {queue : Nat} {s : Sched} : ¬ k.here.Critical → queues queue →
    procUnblockHead st queue k.sched = .ok s → AtaStep st disk queues k { k with sched := s }
  /-- or all of them. -/
  | unblockAll {k : AtaSystem} {queue fuel : Nat} {s : Sched} : ¬ k.here.Critical → queues queue →
    procUnblockAll st queue fuel k.sched = some (.ok s) → AtaStep st disk queues k { k with sched := s }

/-- The empty system with an idle drive. -/
structure AtaBoot (st : ProcStatics) (queues : Nat → Prop) (k : AtaSystem) : Prop where
  sched : SchedBoot st k.sched
  live : k.live = []
  ata : k.ata.reqHead = 0 ∧ k.ata.reqTail = 0
  allocated : k.allocated = []
  drive : k.drive.state = .idle ∧ k.drive.irq = false
  point : ∀ n, k.point n = .outside
  returned : k.returned = []
  queues : ¬ queues st.availProcs

/-- No thread, and an idle drive. -/
def idleAta : AtaSystem where
  sched := emptySched
  live := []
  ata := ⟨fun _ => ⟨0, 0⟩, 0, 0⟩
  allocated := []
  drive := ⟨fun _ => (0, 0), .idle, false⟩
  point _ := .outside
  call _ := ⟨0, 0, fun _ => 0⟩
  returned := []

theorem ataBoot_idleAta : AtaBoot someProcStatics (fun _ => False) idleAta :=
  ⟨⟨fun _ => rfl, rfl, rfl, rfl⟩, rfl, ⟨rfl, rfl⟩, rfl, ⟨rfl, rfl⟩, fun _ => rfl, rfl, id⟩

end BanjOS
