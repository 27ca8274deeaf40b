import BanjOS.Devices.RingBuffer
import BanjOS.Lib.BoundedFifo

/-!
# Runs of the ring buffer

`ring_buffer.c` once more, now with its pointers as C has them: numbers that nothing keeps inside `buff`.
`PtrRing` is that struct, its pointers counted from `&buff[0]`, and each of its three operations is the
code's. As long as the pointers are inside `buff` it is a `RingBuffer` (`PtrRing.toRing`), so a run of any
operations from `ring_init` is a run of a queue of fifteen characters (`ringRun_eq_fifo`), whichever
of the two consumers takes them.
-/

namespace BanjOS

/-- `struct RingBuffer` in memory: the pointers and the bytes around them, from `&buff[0]` on. -/
structure PtrRing where
  mem : Int → UInt8
  consumer : Int
  producer : Int
  /-- The address of the queue of blocked consumers, `NULL` if the buffer is not blockable. -/
  blocked : Nat

namespace PtrRing

/-- `ring_init`, on the bytes that were there, with the queue that `kmalloc` returned (or `NULL`). -/
def ringInit (mem : Int → UInt8) (blocked : Nat) : PtrRing := ⟨mem, 0, 0, blocked⟩

/-- `ptr++`, and back to `&buff[0]` from `&buff[BUFF_SIZE]` on. -/
def ptrAdvance (ptr : Int) : Int := if ptr + 1 ≥ 16 then 0 else ptr + 1

/-- `ring_consumer_next`: whether there was a character, `*next` and the buffer after it. -/
def ringConsumerNext (state : PtrRing) (next : UInt8) : Bool × UInt8 × PtrRing :=
  if state.consumer = state.producer then (false, next, state)
  else (true, state.mem state.consumer, { state with consumer := ptrAdvance state.consumer })

/-- `ring_consumer_block_next`. Each round of its loop is a call of `PROC_block_on`, which returns with
the buffer that the other threads have left; `none` is a call that is still waiting after `fuel` rounds. -/
def ringConsumerBlockNext (procBlockOn : PtrRing → PtrRing) (fuel : Nat) (state : PtrRing) :
    Option (UInt8 × PtrRing) :=
  if state.consumer = state.producer then
    match fuel with
    | 0 => none
    | fuel + 1 => ringConsumerBlockNext procBlockOn fuel (procBlockOn state)
  else
    some (state.mem state.consumer, { state with consumer := ptrAdvance state.consumer })

/-- `ring_producer_add_char`: whether there was room, and the buffer after it. -/
def ringProducerAddChar (state : PtrRing) (toAdd : UInt8) : Bool × PtrRing :=
  if state.producer = state.consumer - 1 ∨ (state.consumer = 0 ∧ state.producer = 16 - 1) then (false, state)
  else
    (true, { state with
      mem := Function.update state.mem state.producer toAdd
      producer := ptrAdvance state.producer })

/-- One operation of a caller. The blocking consumer is called without waiting: `none` when it would. -/
def step : FifoOp UInt8 → PtrRing → Option (FifoResult UInt8 × PtrRing)
  | .put c, s => some ((ringProducerAddChar s c).map .put id)
  | .take, s =>
    let (ok, c, s') := ringConsumerNext s 0
    some (.got (if ok then some c else none), s')
  | .wait, s => (ringConsumerBlockNext id 0 s).map (Prod.map (fun c => .got (some c)) id)

/-- The pointers are inside `buff`. -/
structure InBuff (s : PtrRing) : Prop where
  consumer_nonneg : 0 ≤ s.consumer
  consumer_lt : s.consumer < 16
  producer_nonneg : 0 ≤ s.producer
  producer_lt : s.producer < 16

/-- The ring buffer that a struct with its pointers inside `buff` is. -/
def toRing (s : PtrRing) : RingBuffer where
  buff p := s.mem p.val
  consumer := ⟨s.consumer.toNat % 16, Nat.mod_lt _ (Nat.zero_lt_succ 15)⟩
  producer := ⟨s.producer.toNat % 16, Nat.mod_lt _ (Nat.zero_lt_succ 15)⟩
  blocked := s.blocked

/-- The characters in the buffer, the next one first. -/
def chars (s : PtrRing) : List UInt8 := s.toRing.chars

/-! ## The pointers stay inside `buff` -/

section
variable {s s' : PtrRing} {c : UInt8}

@[simp] theorem chars_ringInit (mem : Int → UInt8) (blocked : Nat) : (ringInit mem blocked).chars = [] :=
  (RingBuffer.chars_eq_nil_iff _).2 rfl

theorem inBuff_ringInit (mem : Int → UInt8) (blocked : Nat) : (ringInit mem blocked).InBuff := by
  constructor <;> simp [ringInit]

/-- Pointers inside `buff` are positions of the buffer. -/
theorem InBuff.exists_eq (h : s.InBuff) :
    ∃ c p : RingPos, s = ⟨s.mem, c.val, p.val, s.blocked⟩ := by
  obtain ⟨mem, consumer, producer, blocked⟩ := s
  obtain ⟨hc₀, hc, hp₀, hp⟩ := h
  lift consumer to Nat using hc₀
  lift producer to Nat using hp₀
  exact ⟨⟨consumer, Int.ofNat_lt.1 hc⟩, ⟨producer, Int.ofNat_lt.1 hp⟩, rfl⟩

section
variable (mem : Int → UInt8) (c p : RingPos) (blocked : Nat)

theorem inBuff_mk : (⟨mem, c.val, p.val, blocked⟩ : PtrRing).InBuff :=
  ⟨Int.natCast_nonneg _, Int.ofNat_lt.2 c.isLt, Int.natCast_nonneg _, Int.ofNat_lt.2 p.isLt⟩

theorem toRing_mk :
    (⟨mem, c.val, p.val, blocked⟩ : PtrRing).toRing = ⟨fun q => mem q.val, c, p, blocked⟩ := by
  simp [toRing, Nat.mod_eq_of_lt]

theorem ptrAdvance_eq : ptrAdvance p.val = (ringAdvance p).val := by
  revert p
  decide

end

/-- The producer writes inside `buff` and adds what the buffer's producer adds. -/
theorem ringProducerAddChar_toRing (h : s.InBuff) (c : UInt8) :
    (ringProducerAddChar s c).map id toRing = BanjOS.ringProducerAddChar s.toRing c ∧
    (ringProducerAddChar s c).2.InBuff ∧
    ∀ a, a < 0 ∨ 16 ≤ a → (ringProducerAddChar s c).2.mem a = s.mem a := by
  obtain ⟨k, p, hs⟩ := h.exists_eq
  have hfull : ((p.val : Int) = k.val - 1 ∨ ((k.val : Int) = 0 ∧ (p.val : Int) = 16 - 1)) ↔
      (p.val + 1 = k.val ∨ (k.val = 0 ∧ p.val = 15)) := by omega
  rw [hs, toRing_mk]
  simp only [ringProducerAddChar, BanjOS.ringProducerAddChar, hfull, ptrAdvance_eq]
  split
  case isTrue => exact ⟨by simp [toRing_mk], inBuff_mk .., fun _ _ => rfl⟩
  case isFalse =>
    refine ⟨?_, inBuff_mk .., fun a ha => Function.update_of_ne (by have := p.isLt; omega) ..⟩
    have hmem : (fun q : RingPos => Function.update s.mem (p.val : Int) c q.val) =
        Function.update (fun q : RingPos => s.mem q.val) p c := by
      funext q
      simp only [Function.update_apply, Int.natCast_inj, ← Fin.ext_iff]
    simp [toRing_mk, hmem]

/-- The consumer takes the first character, reading inside `buff`; without one it changes nothing. -/
theorem ringConsumerNext_cases (h : s.InBuff) (next : UInt8) :
    (s.chars = [] ∧ ringConsumerNext s next = (false, next, s)) ∨
    ∃ c s', ringConsumerNext s next = (true, c, s') ∧ s.chars = c :: s'.chars ∧
      s'.InBuff ∧ s'.mem = s.mem := by
  obtain ⟨k, p, hs⟩ := h.exists_eq
  rw [hs]
  simp only [ringConsumerNext, chars, toRing_mk, Int.natCast_inj, ← Fin.ext_iff, ptrAdvance_eq]
  split
  case isTrue heq => exact .inl ⟨(RingBuffer.chars_eq_nil_iff _).2 heq, rfl⟩
  case isFalse hne =>
    refine .inr ⟨_, _, rfl, ?_, inBuff_mk .., rfl⟩
    rw [toRing_mk]
    refine (ringConsumerNext_eq_some (r := ⟨fun q => s.mem q.val, k, p, s.blocked⟩) ?_).1
    rw [BanjOS.ringConsumerNext, if_neg hne]

/-- A character is added at the end, or the buffer with its fifteen characters is left as it is. -/
theorem ringProducerAddChar_chars (h : s.InBuff) (c : UInt8) :
    (s.chars.length < 15 ∧ (ringProducerAddChar s c).1 = true ∧
      (ringProducerAddChar s c).2.chars = s.chars ++ [c]) ∨
    (s.chars.length = 15 ∧ ringProducerAddChar s c = (false, s)) := by
  obtain ⟨hring, -⟩ := ringProducerAddChar_toRing h c
  obtain ⟨hok, hchars, -⟩ := ringProducerAddChar_eq s.toRing c
  rw [← hring] at hok hchars
  have hcount := s.toRing.count_lt
  have hlen : s.chars.length = s.toRing.count := s.toRing.length_chars
  by_cases hroom : s.toRing.count < 15
  case pos =>
    rw [if_pos hroom] at hchars
    exact .inl ⟨by omega, by simpa [hroom] using hok, hchars⟩
  case neg =>
    refine .inr ⟨by omega, ?_⟩
    have hfail : (ringProducerAddChar s c).1 = false := by simpa [hroom] using hok
    simp only [ringProducerAddChar] at hfail ⊢
    split at hfail
    case isTrue hfull => rw [if_pos hfull]
    case isFalse => cases hfail

/-- The blocking consumer takes what the other one takes, and blocks where that one takes nothing. -/
theorem ringConsumerBlockNext_eq (procBlockOn : PtrRing → PtrRing) (fuel : Nat) (s : PtrRing) (next : UInt8) :
    ringConsumerBlockNext procBlockOn fuel s =
      match ringConsumerNext s next, fuel with
      | (true, c, s'), _ => some (c, s')
      | (false, _), 0 => none
      | (false, _, s'), fuel + 1 => ringConsumerBlockNext procBlockOn fuel (procBlockOn s') := by
  rw [ringConsumerBlockNext.eq_def, ringConsumerNext]
  split
  case isTrue => cases fuel <;> rfl
  case isFalse => rfl

/-! ## Runs -/

/-- An operation leaves the pointers inside `buff` and the bytes around it alone. -/
theorem step_inBuff {op : FifoOp UInt8} {r : FifoResult UInt8} (hstep : step op s = some (r, s'))
    (h : s.InBuff) : s'.InBuff ∧ ∀ a, a < 0 ∨ 16 ≤ a → s'.mem a = s.mem a := by
  cases op with
  | put c =>
    cases hstep
    exact (ringProducerAddChar_toRing h c).2
  | take =>
    obtain ⟨-, hnext⟩ | ⟨c, s₁, hnext, -, hin, hmem⟩ := ringConsumerNext_cases h 0
    all_goals
      rw [step, hnext] at hstep
      cases hstep
    · exact ⟨h, fun _ _ => rfl⟩
    · exact ⟨hin, fun a _ => congrFun hmem a⟩
  | wait =>
    obtain ⟨-, hnext⟩ | ⟨c, s₁, hnext, -, hin, hmem⟩ := ringConsumerNext_cases h 0
    all_goals
      rw [step, ringConsumerBlockNext_eq id 0 s 0, hnext] at hstep
      cases hstep
    exact ⟨hin, fun a _ => congrFun hmem a⟩

/-- An operation on the ring is that operation on the queue of its characters. -/
theorem step_chars (op : FifoOp UInt8) (s : PtrRing) (h : s.InBuff) :
    (step op s).map (Prod.map id chars) = op.step 15 s.chars := by
  cases op with
  | put c =>
    obtain ⟨hlen, hok, hchars⟩ | ⟨hlen, hfull⟩ := ringProducerAddChar_chars h c
    · simp [step, FifoOp.step, hlen, hok, hchars, Prod.map]
    · simp [step, FifoOp.step, hlen, hfull]
  | take =>
    obtain ⟨hnil, hnext⟩ | ⟨c, s', hnext, hcons, -⟩ := ringConsumerNext_cases h 0
    · simp [step, hnext, hnil, FifoOp.step]
    · simp [step, hnext, hcons, FifoOp.step]
  | wait =>
    have hblock := ringConsumerBlockNext_eq id 0 s 0
    obtain ⟨hnil, hnext⟩ | ⟨c, s', hnext, hcons, -⟩ := ringConsumerNext_cases h 0
    all_goals rw [hnext] at hblock
    · simp [step, hblock, hnil, FifoOp.step]
    · simp [step, hblock, hcons, FifoOp.step]

/-- A run of the ring from a state with its pointers inside `buff` is a run of the queue. -/
theorem ringRun_eq_fifo (ops : List (FifoOp UInt8)) (h : s.InBuff) :
    (runFrom step ops s).map (Prod.map id chars) = runFrom (FifoOp.step 15) ops s.chars :=
  runFrom_simulation chars InBuff (fun _ _ _ _ hstep hs => (step_inBuff hstep hs).1) step_chars h

/-- After `ring_init` the pointers are inside `buff` in every run, and nothing outside it is written. -/
theorem ringRun_inBuff {mem : Int → UInt8} {blocked : Nat} {ops : List (FifoOp UInt8)}
    {rs : List (FifoResult UInt8)} (hrun : runFrom step ops (ringInit mem blocked) = some (rs, s)) :
    s.InBuff ∧ ∀ a, a < 0 ∨ 16 ≤ a → s.mem a = mem a := by
  refine runFrom_invariant (fun s => s.InBuff ∧ ∀ a, a < 0 ∨ 16 ≤ a → s.mem a = mem a) ?_ hrun
    ⟨inBuff_ringInit mem blocked, fun _ _ => rfl⟩
  rintro op s r s' hstep ⟨hin, hmem⟩
  obtain ⟨hin', hmem'⟩ := step_inBuff hstep hin
  exact ⟨hin', fun a ha => (hmem' a ha).trans (hmem a ha)⟩

end

/-- From `ring_init` on the ring is a queue of fifteen characters: every run of its operations has the
results of that queue's run and ends with the characters that queue holds. -/
theorem ring_bounded_fifo (mem : Int → UInt8) (blocked : Nat) (ops : List (FifoOp UInt8)) :
    (runFrom step ops (ringInit mem blocked)).map (Prod.map id chars) = runFrom (FifoOp.step 15) ops [] ∧
    ∀ rs s, runFrom step ops (ringInit mem blocked) = some (rs, s) →
      (s.InBuff ∧ ∀ a, a < 0 ∨ 16 ≤ a → s.mem a = mem a) ∧
      fifoOutputs rs ++ s.chars = fifoAccepted ops rs ∧
      (∀ c, ((ringProducerAddChar s c).1 = false ↔ s.chars.length = 15) ∧
        ((ringProducerAddChar s c).1 = false → (ringProducerAddChar s c).2 = s)) ∧
      (∀ next, ((ringConsumerNext s next).1 = false ↔ s.chars = []) ∧
        ((ringConsumerNext s next).1 = false → (ringConsumerNext s next).2 = (next, s))) ∧
      (s.chars ≠ [] → ∀ procBlockOn fuel next,
        ringConsumerBlockNext procBlockOn fuel s = some (ringConsumerNext s next).2) := by
  have hfifo := ringRun_eq_fifo ops (inBuff_ringInit mem blocked)
  rw [chars_ringInit] at hfifo
  refine ⟨hfifo, fun rs s hrun => ?_⟩
  obtain ⟨hin, hmem⟩ := ringRun_inBuff hrun
  rw [hrun] at hfifo
  refine ⟨⟨hin, hmem⟩, fifoRun_conserves (l := []) hfifo.symm, fun c => ?_, fun next => ?_, ?_⟩
  · obtain ⟨hlen, hok, -⟩ | ⟨hlen, hfull⟩ := ringProducerAddChar_chars hin c
    · simp [hok, hlen.ne]
    · simp [hfull, hlen]
  · obtain ⟨hnil, hnext⟩ | ⟨c, s', hnext, hcons, -⟩ := ringConsumerNext_cases hin next
    · simp [hnext, hnil]
    · simp [hnext, hcons]
  · rintro hne procBlockOn fuel next
    obtain ⟨hnil, -⟩ | ⟨c, s', hnext, -⟩ := ringConsumerNext_cases hin next
    · exact absurd hnil hne
    · rw [ringConsumerBlockNext_eq procBlockOn fuel s next, hnext]

end PtrRing
end BanjOS
