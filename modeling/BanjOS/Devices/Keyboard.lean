import BanjOS.Devices.RingBuffer
import BanjOS.Processes.Frames

/-!
# The keyboard

`getc` and `ps2_irq_handler`: threads wait in `ring_consumer_block_next` for the characters that the
keyboard interrupt puts in a ring. The functions are taken apart into the steps between which an
interrupt or a context switch can fall (`KeyboardStep`). The invariant of the waiting loop (`KeyboardInv`)
needs no more of the scheduler than that an operation on one queue leaves the heads of the others alone
(`HeadFrame`).
-/

namespace BanjOS

/-! ## Threads and the interrupt handler -/

/-- Where a thread is in `ring_consumer_block_next`, between two steps. -/
inductive GetcPoint
  /-- Not in `getc`. -/
  | outside
  /-- After `CLI`, before the test of the loop. -/
  | test
  /-- The ring is empty: in `PROC_block_on`, before `unlink_proc`. -/
  | block
  /-- Before `append_proc`. -/
  | unlinked
  /-- Before `STI` in `PROC_block_on`. -/
  | queued
  /-- In `yield`, before `PROC_reschedule`. -/
  | yielding
  /-- Before `int $0x80`. -/
  | rescheduled
  /-- Back in the loop, before `CLI`. -/
  | resumed
  /-- The character is taken, before `STI`. -/
  | taken
  deriving DecidableEq

/-- The points between `CLI` and `STI`. -/
def GetcPoint.Critical (pt : GetcPoint) : Prop := pt ∈ [test, block, unlinked, queued, taken]

/-- The points at which the thread has found the ring empty and interrupts are still disabled. -/
def GetcPoint.FoundEmpty (pt : GetcPoint) : Prop := pt ∈ [block, unlinked, queued]

instance (pt : GetcPoint) : Decidable pt.Critical := inferInstanceAs (Decidable (_ ∈ _))

instance (pt : GetcPoint) : Decidable pt.FoundEmpty := inferInstanceAs (Decidable (_ ∈ _))

theorem GetcPoint.FoundEmpty.critical {pt : GetcPoint} (h : pt.FoundEmpty) : pt.Critical := by
  revert h
  cases pt <;> decide

/-- Where `ps2_irq_handler` is. -/
inductive Ps2Point
  /-- Before the scan code is read. -/
  | entered
  /-- Before `PROC_unblock_all`. -/
  | added
  /-- Before the end of interrupt. -/
  | unblocked

/-- The scheduler, the keyboard ring and the interrupt flag, where each thread is, the interrupt flag in
the frame of each thread that is switched away from, and where the keyboard handler is, if it runs. -/
structure Keyboard where
  sched : Sched
  ring : RingBuffer
  ints : Bool
  point : Nat → GetcPoint
  savedInts : Nat → Bool
  handler : Option Ps2Point

namespace Keyboard

/-- The running thread moves on. -/
def move (k : Keyboard) (pt : GetcPoint) : Keyboard :=
  { k with point := Function.update k.point k.sched.curProc pt }

/-- Where the running thread is. -/
def here (k : Keyboard) : GetcPoint := k.point k.sched.curProc

/-- The end of an interrupt, where the scheduler goes over to `s`: the frame of the running thread keeps
the interrupt flag, and `iretq` loads it from the frame of the thread that runs next. -/
def switch (k : Keyboard) (s : Sched) : Keyboard :=
  let savedInts := Function.update k.savedInts k.sched.curProc k.ints
  { k with sched := s, savedInts := savedInts, ints := savedInts s.curProc }

end Keyboard

/-- `KEYCODE_ENTER_PRESSED`. -/
abbrev keycodeEnterPressed : UInt8 := 0x1C

/-- The part of `ps2_irq_handler` that adds the character of a scan code to the ring. -/
def ps2AddCode (scanCodeToChar : UInt8 → UInt8) (ring : RingBuffer) (code : UInt8) : RingBuffer :=
  if code = keycodeEnterPressed then (ringProducerAddChar ring 0x0A).2
  else if scanCodeToChar code ≠ 0 then (ringProducerAddChar ring (scanCodeToChar code)).2
  else ring

/-- The steps of the threads in `getc`, of the keyboard interrupt and of everything else. Any translation
of scan codes is allowed. -/
inductive KeyboardStep (st : ProcStatics) (scanCodeToChar : UInt8 → UInt8) : Keyboard → Keyboard → Prop
  /-- `CLI`, at the start of `ring_consumer_block_next` or in its loop. -/
  | cli {k : Keyboard} : k.handler = none → k.sched.curProc ≠ 0 → k.here = .outside ∨ k.here = .resumed →
    KeyboardStep st scanCodeToChar k { k.move .test with ints := false }
  /-- The ring is not empty: take a character. -/
  | take {k : Keyboard} {c : UInt8} {ring : RingBuffer} : k.handler = none → k.here = .test →
    ringConsumerNext k.ring = some (c, ring) →
    KeyboardStep st scanCodeToChar k { k.move .taken with ring := ring }
  /-- `STI` and return. -/
  | sti {k : Keyboard} : k.handler = none → k.here = .taken →
    KeyboardStep st scanCodeToChar k { k.move .outside with ints := true }
  /-- The ring is empty: call `PROC_block_on`. -/
  | empty {k : Keyboard} : k.handler = none → k.here = .test → ringConsumerNext k.ring = none →
    KeyboardStep st scanCodeToChar k (k.move (if k.ring.blocked = 0 then .resumed else .block))
  /-- `unlink_proc(cur_proc, &avail_procs)`. -/
  | unlink {k : Keyboard} {s : Sched} : k.handler = none → k.here = .block →
    unlinkProc k.sched.curProc st.availProcs k.sched = .ok s →
    KeyboardStep st scanCodeToChar k { k.move .unlinked with sched := s }
  /-- `append_proc(cur_proc, queue)`. -/
  | append {k : Keyboard} {s : Sched} : k.handler = none → k.here = .unlinked →
    appendProc k.sched.curProc k.ring.blocked k.sched = .ok s →
    KeyboardStep st scanCodeToChar k { k.move .queued with sched := s }
  /-- `STI` in `PROC_block_on`. -/
  | enable {k : Keyboard} : k.handler = none → k.here = .queued →
    KeyboardStep st scanCodeToChar k { k.move .yielding with ints := true }
  /-- `PROC_reschedule`. -/
  | reschedule {k : Keyboard} {s : Sched} : k.handler = none → k.here = .yielding →
    procReschedule st k.sched = .ok s →
    KeyboardStep st scanCodeToChar k { k.move .rescheduled with sched := s }
  /-- `int $0x80`: the thread will go on in the loop. -/
  | int80 {k : Keyboard} {rsp : Nat} {s : Sched} : k.handler = none → k.here = .rescheduled →
    contextSwitch st rsp k.sched = .ok s →
    KeyboardStep st scanCodeToChar k ((k.move .resumed).switch s)
  /-- Any other interrupt may end with a context switch. -/
  | switch {k : Keyboard} {rsp : Nat} {s : Sched} : k.handler = none →
    k.ints = true ∨ k.here = .outside → contextSwitch st rsp k.sched = .ok s →
    KeyboardStep st scanCodeToChar k (k.switch s)
  /-- The keyboard interrupt arrives. -/
  | irq {k : Keyboard} : k.handler = none → k.ints = true →
    KeyboardStep st scanCodeToChar k { k with handler := some .entered, ints := false }
  /-- `ps2_irq_handler` reads a scan code. -/
  | add {k : Keyboard} (code : UInt8) : k.handler = some .entered →
    KeyboardStep st scanCodeToChar k
      { k with handler := some .added, ring := ps2AddCode scanCodeToChar k.ring code }
  /-- `PROC_unblock_all(keyboard_ring.blocked)`. -/
  | unblock {k : Keyboard} {fuel : Nat} {s : Sched} : k.handler = some .added →
    procUnblockAll st k.ring.blocked fuel k.sched = some (.ok s) →
    KeyboardStep st scanCodeToChar k { k with handler := some .unblocked, sched := s }
  /-- `ps2_irq_handler` and `irq_handler` return, with `STI`. -/
  | eoi {k : Keyboard} : k.handler = some .unblocked →
    KeyboardStep st scanCodeToChar k { k with handler := none, ints := true }
  /-- Code outside of `getc`, in the running thread or in the handler of another interrupt: it may do
  anything to the scheduler but to the head of the keyboard's queue and to the running thread (which it
  may end), and may enable or disable interrupts if it is the thread's own. -/
  | other {k : Keyboard} {s : Sched} {ints : Bool} {savedInts : Nat → Bool} : k.handler = none →
    k.here = .outside ∧ (s.curProc = k.sched.curProc ∨ s.curProc = 0) ∨
      k.ints = true ∧ s.curProc = k.sched.curProc ∧ ints = true →
    s.head k.ring.blocked = k.sched.head k.ring.blocked →
    (∀ n, k.point n ≠ .outside → savedInts n = k.savedInts n) →
    KeyboardStep st scanCodeToChar k { k with sched := s, ints := ints, savedInts := savedInts }

/-! ## Invariant -/

/-- What holds between the steps. The first field is the property itself, which fails only while the
handler has added a character and not yet unblocked the waiting threads. -/
structure KeyboardInv (st : ProcStatics) (k : Keyboard) : Prop where
  wake : k.handler ≠ some .added → k.ring.chars ≠ [] → k.sched.head k.ring.blocked = 0
  critical : k.here.Critical → k.ints = false ∧ k.handler = none
  waiting : k.here ≠ .outside → ¬ k.here.Critical → k.handler = none → k.ints = true
  foundEmpty : k.here.FoundEmpty → k.ring.chars = []
  others : ∀ n, n ≠ k.sched.curProc →
    ¬ (k.point n).Critical ∧ (k.point n ≠ .outside → k.savedInts n = true)
  zero : k.point 0 = .outside
  blocked : k.ring.blocked ≠ 0 ∧ k.ring.blocked ≠ st.availProcs

section
variable {st : ProcStatics} {scanCodeToChar : UInt8 → UInt8} {k k' : Keyboard}

/-- A step of the running thread inside `getc`: the other threads stay where they are. -/
theorem KeyboardInv.move (h : KeyboardInv st k) {pt : GetcPoint}
    (hcur : k'.sched.curProc = k.sched.curProc) (hne : k.sched.curProc ≠ 0)
    (hpoint : k'.point = Function.update k.point k.sched.curProc pt)
    (hsaved : k'.savedInts = k.savedInts) (hblocked : k'.ring.blocked = k.ring.blocked)
    (hnone : k'.handler = none) (hints : k'.ints = decide (¬ pt.Critical))
    (hempty : pt.FoundEmpty → k'.ring.chars = [])
    (hwake : k'.ring.chars ≠ [] → k'.sched.head k'.ring.blocked = 0) : KeyboardInv st k' := by
  have hhere : k'.here = pt := by rw [Keyboard.here, hpoint, hcur, Function.update_self]
  refine ⟨fun _ => hwake, fun hc => ?_, fun _ hc _ => ?_, fun hc => ?_, fun n hn => ?_, ?_, ?_⟩
  · rw [hhere] at hc
    simp [hints, hnone, hc]
  · rw [hhere] at hc
    simp [hints, hc]
  · exact hempty (hhere ▸ hc)
  · rw [hcur] at hn
    rw [hpoint, hsaved, Function.update_of_ne hn]
    exact h.others n hn
  · rw [hpoint, Function.update_of_ne hne.symm, h.zero]
  · rw [hblocked]
    exact h.blocked

/-- The running thread is not the null node inside of `getc`. -/
theorem KeyboardInv.curProc_ne (h : KeyboardInv st k) (hhere : k.here ≠ .outside) :
    k.sched.curProc ≠ 0 := by
  intro hc
  rw [Keyboard.here, hc] at hhere
  exact hhere h.zero

/-- Interrupts are off in a critical section. -/
theorem KeyboardInv.not_critical_of_ints (h : KeyboardInv st k) (hints : k.ints = true) : ¬ k.here.Critical := by
  intro hc
  rw [(h.critical hc).1] at hints
  cases hints

/-- No handler runs during a critical section. -/
theorem KeyboardInv.not_critical_of_handler (h : KeyboardInv st k) {e : Ps2Point} (he : k.handler = some e) :
    ¬ k.here.Critical := by
  intro hc
  rw [(h.critical hc).2] at he
  cases he

/-- A context switch of a thread that is not in a critical section. -/
theorem KeyboardInv.switch (h : KeyboardInv st k) (hnone : k.handler = none)
    (hhere : ¬ k.here.Critical) (hints : k.here ≠ .outside → k.ints = true) {s : Sched}
    (hhead : s.head = k.sched.head) : KeyboardInv st (k.switch s) := by
  -- every thread is now outside of a critical section, with its flag saved
  have hall : ∀ n, ¬ (k.point n).Critical ∧
      (k.point n ≠ .outside → (k.switch s).savedInts n = true) := by
    intro n
    obtain rfl | hn := eq_or_ne n k.sched.curProc
    · refine ⟨hhere, fun hne => ?_⟩
      simp only [Keyboard.switch, Function.update_self]
      exact hints hne
    · simp only [Keyboard.switch, Function.update_of_ne hn]
      exact h.others n hn
  refine ⟨fun _ => ?_, fun hc => absurd hc (hall _).1, fun hne _ _ => (hall _).2 hne, fun hc => ?_,
    fun n _ => hall n, h.zero, h.blocked⟩
  · simpa [Keyboard.switch, hhead] using h.wake (by simp [hnone])
  · exact absurd (GetcPoint.FoundEmpty.critical hc) (hall s.curProc).1

/-- A step of an interrupt handler: every thread stays where it is, and none is in a critical section. -/
theorem KeyboardInv.handler (h : KeyboardInv st k) (hhere : ¬ k.here.Critical)
    (hcur : k'.sched.curProc = k.sched.curProc) (hpoint : k'.point = k.point)
    (hsaved : ∀ n, k.point n ≠ .outside → k'.savedInts n = k.savedInts n)
    (hblocked : k'.ring.blocked = k.ring.blocked) (hints : k'.handler = none → k'.ints = true)
    (hwake : k'.handler ≠ some .added → k'.ring.chars ≠ [] → k'.sched.head k'.ring.blocked = 0) :
    KeyboardInv st k' := by
  have hsame : k'.here = k.here := by rw [Keyboard.here, hcur, hpoint, Keyboard.here]
  refine ⟨hwake, fun hc => absurd (hsame ▸ hc) hhere, fun _ _ => hints, fun hc => ?_, fun n hn => ?_, ?_, ?_⟩
  · exact absurd (GetcPoint.FoundEmpty.critical (hsame ▸ hc)) hhere
  · rw [hcur] at hn
    rw [hpoint]
    exact ⟨(h.others n hn).1, fun hne => (hsaved n hne).trans ((h.others n hn).2 hne)⟩
  · rw [hpoint, h.zero]
  · rw [hblocked]
    exact h.blocked

/-- `ps2_irq_handler` does not change the queue that the ring names. -/
theorem ps2AddCode_blocked (ring : RingBuffer) (code : UInt8) :
    (ps2AddCode scanCodeToChar ring code).blocked = ring.blocked := by
  unfold ps2AddCode
  split
  · exact (ringProducerAddChar_eq ring _).2.2
  · split
    · exact (ringProducerAddChar_eq ring _).2.2
    · rfl

theorem KeyboardInv.step (h : KeyboardInv st k) (hs : KeyboardStep st scanCodeToChar k k') :
    KeyboardInv st k' := by
  have hwake : k.handler = none → k.ring.chars ≠ [] → k.sched.head k.ring.blocked = 0 :=
    fun hnone => h.wake (by simp [hnone])
  cases hs with
  | cli hnone hne hhere =>
    exact h.move rfl hne rfl rfl rfl hnone rfl (fun hc => absurd hc (by decide)) (hwake hnone)
  | take hnone hhere hnext =>
    obtain ⟨hchars, hblocked⟩ := ringConsumerNext_eq_some hnext
    refine h.move rfl (h.curProc_ne (by simp [hhere])) rfl rfl hblocked hnone ?_
      (fun hc => absurd hc (by decide)) fun _ => ?_
    · exact (h.critical (by rw [hhere]; decide)).1
    · have := hwake hnone (by simp [hchars])
      rwa [← hblocked] at this
  | sti hnone hhere | enable hnone hhere =>
    exact h.move rfl (h.curProc_ne (by simp [hhere])) rfl rfl rfl hnone rfl
      (fun hc => absurd hc (by decide)) (hwake hnone)
  | empty hnone hhere hnext =>
    rw [if_neg h.blocked.1]
    exact h.move rfl (h.curProc_ne (by simp [hhere])) rfl rfl rfl hnone
      (h.critical (by rw [hhere]; decide)).1 (fun _ => ringConsumerNext_eq_none.1 hnext) (hwake hnone)
  | unlink hnone hhere hunlink =>
    have hframe := QueueEdit.unlinkProc hunlink
    have hempty := h.foundEmpty (by rw [hhere]; decide)
    exact h.move hframe.curProc (h.curProc_ne (by simp [hhere])) rfl rfl rfl hnone
      (h.critical (by rw [hhere]; decide)).1 (fun _ => hempty) (fun hc => absurd hempty hc)
  | append hnone hhere happend =>
    have hframe := QueueEdit.appendProc happend
    have hempty := h.foundEmpty (by rw [hhere]; decide)
    exact h.move hframe.curProc (h.curProc_ne (by simp [hhere])) rfl rfl rfl hnone
      (h.critical (by rw [hhere]; decide)).1 (fun _ => hempty) (fun hc => absurd hempty hc)
  | reschedule hnone hhere hre =>
    have hframe := HeadFrame.procReschedule hre
    refine h.move hframe.curProc (h.curProc_ne (by simp [hhere])) rfl rfl rfl hnone
      (h.waiting (by simp [hhere]) (by rw [hhere]; decide) hnone) (fun hc => absurd hc (by decide))
      fun hne => ?_
    exact (hframe.head _ h.blocked.2).trans (hwake hnone hne)
  | int80 hnone hhere hswitch =>
    have hints := h.waiting (by simp [hhere]) (by rw [hhere]; decide) hnone
    have h' : KeyboardInv st (k.move .resumed) :=
      h.move rfl (h.curProc_ne (by simp [hhere])) rfl rfl rfl hnone hints
        (fun hc => absurd hc (by decide)) (hwake hnone)
    have hres : (k.move .resumed).here = .resumed := by simp [Keyboard.here, Keyboard.move]
    exact h'.switch hnone (by rw [hres]; decide) (fun _ => hints) (contextSwitch_head hswitch)
  | switch hnone hhere hswitch =>
    refine h.switch hnone (fun hc => ?_) (fun hne => hhere.resolve_right hne) (contextSwitch_head hswitch)
    obtain hints | hout := hhere
    · exact h.not_critical_of_ints hints hc
    · rw [hout] at hc
      exact absurd hc (by decide)
  | irq hnone hints =>
    exact h.handler (h.not_critical_of_ints hints) rfl rfl (fun _ _ => rfl) rfl (by simp) fun _ => hwake hnone
  | add code hent =>
    exact h.handler (h.not_critical_of_handler hent) rfl rfl (fun _ _ => rfl) (ps2AddCode_blocked k.ring code)
      (by simp) fun hc => absurd rfl hc
  | unblock hadd hall =>
    obtain ⟨hhead, hcur, -⟩ := procUnblockAll_vars hall
    exact h.handler (h.not_critical_of_handler hadd) hcur rfl (fun _ _ => rfl) rfl (by simp) fun _ _ => hhead
  | eoi hun =>
    exact h.handler (h.not_critical_of_handler hun) rfl rfl (fun _ _ => rfl) rfl (fun _ => rfl)
      fun _ => h.wake (by simp [hun])
  | @other s ints savedInts hnone hcode hhead hsaved =>
    have hwake' : k.ring.chars ≠ [] → s.head k.ring.blocked = 0 := fun hne => hhead.trans (hwake hnone hne)
    obtain ⟨hout, hcur⟩ | ⟨hints, hcur, rfl⟩ := hcode
    · -- the thread is outside of `getc`, and so is the null node
      have hall : ∀ n, ¬ (k.point n).Critical ∧ (k.point n ≠ .outside → savedInts n = true) := by
        intro n
        obtain rfl | hn := eq_or_ne n k.sched.curProc
        · rw [show k.point k.sched.curProc = .outside from hout]
          exact ⟨by decide, fun hc => absurd rfl hc⟩
        · obtain ⟨hc, hs⟩ := h.others n hn
          exact ⟨hc, fun hne => (hsaved n hne).trans (hs hne)⟩
      have hhere : k.point s.curProc = .outside := by
        obtain hcur | hcur := hcur
        · rw [hcur]
          exact hout
        · rw [hcur, h.zero]
      refine ⟨fun _ => hwake', fun hc => absurd hc (hall _).1, fun hc => absurd hhere hc, fun hc => ?_,
        fun n _ => hall n, h.zero, h.blocked⟩
      exact absurd hc.critical (hall _).1
    · exact h.handler (h.not_critical_of_ints hints) hcur rfl hsaved rfl (fun _ => rfl) fun _ => hwake'

end

/-! ## No lost wake-up -/

/-- The keyboard after `ps2_initialize`: the ring is empty and nobody is blocked on its queue, which is an
object of its own; no thread is in `getc`. -/
structure KeyboardReady (st : ProcStatics) (k : Keyboard) : Prop where
  chars : k.ring.chars = []
  head : k.sched.head k.ring.blocked = 0
  blocked_ne : k.ring.blocked ≠ 0
  blocked_ne_avail : k.ring.blocked ≠ st.availProcs
  outside : ∀ n, k.point n = .outside

theorem KeyboardReady.inv {st : ProcStatics} {k : Keyboard} (h : KeyboardReady st k) : KeyboardInv st k := by
  refine ⟨fun _ _ => h.head, fun hc => ?_, fun hc => absurd (h.outside _) hc, fun _ => h.chars,
    fun n _ => ?_, h.outside 0, h.blocked_ne, h.blocked_ne_avail⟩
  · rw [Keyboard.here, h.outside] at hc
    exact absurd hc (by decide)
  · rw [h.outside n]
    exact ⟨by decide, fun hc => absurd rfl hc⟩

/-- In every run of threads in `getc` and keyboard interrupts, interleaved in any way and with any other
activity: whenever the handler is not running, also where interrupts are disabled, no thread is blocked
on the keyboard while there is a character in the ring. -/
theorem keyboard_no_lost_wakeup (st : ProcStatics) (scanCodeToChar : UInt8 → UInt8) (k₀ k : Keyboard)
    (h₀ : KeyboardReady st k₀) (hrun : Relation.ReflTransGen (KeyboardStep st scanCodeToChar) k₀ k)
    (hnone : k.handler = none) (hne : k.ring.chars ≠ []) : k.sched.head k.ring.blocked = 0 :=
  (hrun.invariant (KeyboardInv st) h₀.inv fun _ _ hs h => h.step hs).wake (by simp [hnone]) hne

/-- A ready queue with one thread, which runs; interrupts are enabled. -/
def oneReader : Keyboard where
  sched := ⟨fun _ => ⟨0x50, 0x40, 0x40⟩, fun _ => ⟨0, 0, 0⟩, fun q => if q = 0x10 then 0x40 else 0, 0x40, 0x40, 1⟩
  ring := ringInit (fun _ => 0) 0x20
  ints := true
  point _ := .outside
  savedInts _ := false
  handler := none

/-- The thread blocks in `getc`, and is unblocked when a key is pressed before it has yielded. -/
theorem keyboard_no_lost_wakeup_one_reader :
    ∃ k, Relation.ReflTransGen (KeyboardStep someProcStatics fun _ => 0x61) oneReader k ∧
      k.here = .yielding ∧ k.ring.chars = [0x61] ∧ k.sched.head k.ring.blocked = 0 := by
  have hready : KeyboardReady someProcStatics oneReader :=
    ⟨rfl, rfl, by decide, by decide, fun _ => rfl⟩
  have h₁ : Relation.ReflTransGen (KeyboardStep someProcStatics fun _ => 0x61) oneReader _ :=
    .single (.cli rfl (by decide) (.inl rfl))
  have h₂ := h₁.tail (.empty rfl rfl rfl)
  have h₃ := h₂.tail (.unlink rfl rfl rfl)
  have h₄ := h₃.tail (.append rfl rfl rfl)
  have h₅ := h₄.tail (.enable rfl rfl)
  have h₆ := h₅.tail (.irq rfl rfl)
  have h₇ := h₆.tail (.add 0x1E rfl)
  have h₈ := h₇.tail (@KeyboardStep.unblock _ _ _ 2 _ rfl rfl)
  have h₉ := h₈.tail (.eoi rfl)
  exact ⟨_, h₉, rfl, by decide, keyboard_no_lost_wakeup _ _ _ _ hready h₉ rfl (by decide)⟩

end BanjOS
