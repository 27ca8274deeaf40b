import BanjOS.Devices.RingBuffer
import BanjOS.Lib.Prefixes
import BanjOS.Lib.Run

/-!
# The serial port

`serial.c`: `SER_write` puts bytes in a ring buffer and the transmit-ready interrupt takes them out, one
at a time, while the transmit-empty bit of the UART is set. A call of `SER_write` is taken apart into its
steps (`SerStep`), so that an interrupt may arrive wherever interrupts are enabled; `CLI_GUARD` is what
keeps it out of the loop. The main result says exactly when the bytes sent and the bytes in the buffer
are the bytes that the calls reported as written.
-/

namespace BanjOS

/-! ## State -/

/-- The arguments of a call of `SER_write`, and how much room there was when it was called. -/
structure SerCall where
  buff : Nat → UInt8
  len : Int
  room : Nat

/-- The first bytes of a call's buffer. -/
def SerCall.first (c : SerCall) (n : Nat) : List UInt8 := (List.range n).map c.buff

/-- A call in progress: the loop variable and the variable of `CLI_GUARD`. -/
structure SerFrame where
  call : SerCall
  i : Int
  enableInts : Bool

/-- The serial port and its driver: the ring, the bytes written to `COM1`, the interrupt flag, the call
in progress, and the calls that have returned with the values they returned. -/
structure Serial where
  ring : RingBuffer
  sent : List UInt8
  intsEnabled : Bool
  frame : Option SerFrame
  returned : List (SerCall × Int)

namespace Serial

/-- `SER_init`. -/
def serInit (buff : RingPos → UInt8) (intsEnabled : Bool) : Serial :=
  ⟨ringInit buff 0, [], intsEnabled, none, []⟩

/-- `serial_ring_consumer_serial_write`; `empty` is the transmit-empty bit that `inb` reads. -/
def serialRingConsumerSerialWrite (s : Serial) (empty : Bool) : Serial :=
  if empty then
    match ringConsumerNext s.ring with
    | some (c, ring) => { s with ring := ring, sent := s.sent ++ [c] }
    | none => s
  else s

/-- `serial_transmit_ready_handler`. -/
def serialTransmitReadyHandler (s : Serial) (empty : Bool) : Serial :=
  s.serialRingConsumerSerialWrite empty

/-- `SER_write` up to its loop: `CLI_GUARD`. -/
def serWriteEnter (s : Serial) (buff : Nat → UInt8) (len : Int) : Serial :=
  { s with
    intsEnabled := false
    frame := some ⟨⟨buff, len, 15 - s.ring.count⟩, 0, s.intsEnabled⟩ }

/-- One turn of the loop of `SER_write`. -/
def serWriteAdd (s : Serial) (f : SerFrame) : Serial :=
  { s with
    ring := (ringProducerAddChar s.ring (f.call.buff f.i.toNat)).2
    frame := some { f with i := f.i + 1 } }

/-- `SER_write` after its loop. (The test for enabled interrupts before `STI_GUARD` finds them
disabled, or leaves them as they are.) -/
def serWriteLeave (s : Serial) (f : SerFrame) (empty : Bool) : Serial :=
  { s.serialRingConsumerSerialWrite empty with
    intsEnabled := s.intsEnabled || f.enableInts
    frame := none
    returned := s.returned ++ [(f.call, f.call.len)] }

end Serial

/-- The steps of `SER_write` calls and the interrupts between them. Kernel code outside of a call may
also enable or disable interrupts. -/
inductive SerStep : Serial → Serial → Prop
  | enter {s : Serial} (buff : Nat → UInt8) (len : Int) :
    s.frame = none → SerStep s (s.serWriteEnter buff len)
  | add {s : Serial} {f : SerFrame} :
    s.frame = some f → f.i < f.call.len → SerStep s (s.serWriteAdd f)
  | leave {s : Serial} {f : SerFrame} (empty : Bool) :
    s.frame = some f → ¬ f.i < f.call.len → SerStep s (s.serWriteLeave f empty)
  | transmitReady {s : Serial} (empty : Bool) :
    s.intsEnabled = true → SerStep s (s.serialTransmitReadyHandler empty)
  | setInts {s : Serial} (b : Bool) : s.frame = none → SerStep s { s with intsEnabled := b }

/-- The bytes sent, followed by those in the ring, are the bytes that the calls reported as written: of
each call the first `r` bytes, where `r` is the value it returned. -/
def Serial.Reported (s : Serial) : Prop :=
  s.sent ++ s.ring.chars = s.returned.flatMap fun c => c.1.first c.2.toNat

/-! ## What the ring accepts -/

/-- The bytes of a call that the ring has room for, after `n` turns of the loop. -/
def SerCall.accepted (c : SerCall) (n : Nat) : List UInt8 := c.first (min n c.room)

theorem SerCall.first_succ (c : SerCall) (n : Nat) : c.first (n + 1) = c.first n ++ [c.buff n] := by
  simp [first, List.range_succ]

@[simp] theorem SerCall.length_first (c : SerCall) (n : Nat) : (c.first n).length = n := by
  simp [first]

/-- The bytes that the call in progress has put in the ring. -/
def Serial.pending (s : Serial) : List UInt8 :=
  match s.frame with
  | none => []
  | some f => f.call.accepted f.i.toNat

/-- What holds between the steps: the bytes sent and in the ring are the accepted ones, every call
returned its `len`, and a call in progress has interrupts disabled and the ring to itself. -/
structure SerInv (s : Serial) : Prop where
  bytes : s.sent ++ s.ring.chars =
    (s.returned.flatMap fun c => c.1.accepted c.1.len.toNat) ++ s.pending
  returned : ∀ c ∈ s.returned, c.2 = c.1.len
  ints : ∀ f, s.frame = some f → s.intsEnabled = false
  index : ∀ f, s.frame = some f → 0 ≤ f.i ∧ f.i ≤ max 0 f.call.len
  count : ∀ f, s.frame = some f → f.call.room ≤ 15 ∧
    s.ring.count = 15 - f.call.room + min f.i.toNat f.call.room

section
variable {s : Serial}

/-- Sending a byte moves it from the ring to `COM1`. -/
theorem Serial.sent_append_chars (empty : Bool) :
    (s.serialRingConsumerSerialWrite empty).sent ++
      (s.serialRingConsumerSerialWrite empty).ring.chars = s.sent ++ s.ring.chars := by
  unfold serialRingConsumerSerialWrite
  split
  · split
    case h_1 c ring h => simp [(ringConsumerNext_eq_some h).1]
    case h_2 => rfl
  · rfl

@[simp] theorem Serial.serialWrite_returned (empty : Bool) :
    (s.serialRingConsumerSerialWrite empty).returned = s.returned := by
  unfold serialRingConsumerSerialWrite
  split
  · split <;> rfl
  · rfl

@[simp] theorem Serial.serialWrite_frame (empty : Bool) :
    (s.serialRingConsumerSerialWrite empty).frame = s.frame := by
  unfold serialRingConsumerSerialWrite
  split
  · split <;> rfl
  · rfl

theorem SerInv.enter (h : SerInv s) (hf : s.frame = none) (buff : Nat → UInt8) (len : Int) :
    SerInv (s.serWriteEnter buff len) where
  bytes := by simpa [Serial.pending, hf, Serial.serWriteEnter, SerCall.accepted, SerCall.first] using h.bytes
  returned := h.returned
  ints _ _ := rfl
  index := by
    rintro f ⟨⟩
    exact ⟨Int.le_refl 0, Int.le_max_left ..⟩
  count := by
    rintro f ⟨⟩
    have := s.ring.count_lt
    simp only [Serial.serWriteEnter, Int.toNat_zero]
    omega

/-- One turn of the loop: the ring has room for the byte iff fewer turns than free slots came before. -/
theorem SerInv.add (h : SerInv s) {f : SerFrame} (hf : s.frame = some f) (hi : f.i < f.call.len) :
    SerInv (s.serWriteAdd f) := by
  obtain ⟨hi0, -⟩ := h.index f hf
  obtain ⟨hroom, hcount⟩ := h.count f hf
  obtain ⟨-, hchars, -⟩ := ringProducerAddChar_eq s.ring (f.call.buff f.i.toNat)
  have hsucc : (f.i + 1).toNat = f.i.toNat + 1 := by omega
  have hbytes := h.bytes
  simp only [Serial.pending, hf, SerCall.accepted] at hbytes
  refine ⟨?_, h.returned, ?_, ?_, ?_⟩
  · simp only [Serial.pending, Serial.serWriteAdd, hchars, SerCall.accepted, hsucc]
    split
    case isTrue hlt =>
      rw [show min (f.i.toNat + 1) f.call.room = min f.i.toNat f.call.room + 1 by omega,
        SerCall.first_succ, ← List.append_assoc, ← List.append_assoc, hbytes,
        show min f.i.toNat f.call.room = f.i.toNat by omega]
    case isFalse hge =>
      rw [hbytes, show min (f.i.toNat + 1) f.call.room = min f.i.toNat f.call.room by omega]
  · rintro f' ⟨⟩
    exact h.ints f hf
  · rintro f' ⟨⟩
    simp only
    omega
  · rintro f' ⟨⟩
    have hlen := congrArg List.length hchars
    rw [RingBuffer.length_chars] at hlen
    simp only [Serial.serWriteAdd, hlen, hsucc]
    refine ⟨hroom, ?_⟩
    split
    case isTrue hlt =>
      rw [List.length_append, RingBuffer.length_chars, List.length_singleton]
      omega
    case isFalse hge =>
      rw [RingBuffer.length_chars]
      omega

theorem SerInv.leave (h : SerInv s) {f : SerFrame} (hf : s.frame = some f) (hi : ¬ f.i < f.call.len)
    (empty : Bool) : SerInv (s.serWriteLeave f empty) := by
  obtain ⟨hi0, hi1⟩ := h.index f hf
  have hbytes := h.bytes
  simp only [Serial.pending, hf, show f.i.toNat = f.call.len.toNat by omega] at hbytes
  have hf' : (s.serWriteLeave f empty).frame = none := rfl
  refine ⟨?_, ?_, by simp [hf'], by simp [hf'], by simp [hf']⟩
  · simp only [Serial.pending, Serial.serWriteLeave, Serial.sent_append_chars, hbytes,
      List.flatMap_append, List.flatMap_cons, List.flatMap_nil, List.append_nil]
  · simp only [Serial.serWriteLeave, List.mem_append, List.mem_singleton]
    rintro c (hc | rfl)
    · exact h.returned c hc
    · rfl

/-- The interrupt cannot arrive in the middle of a call. -/
theorem SerInv.transmitReady (h : SerInv s) (hi : s.intsEnabled = true) (empty : Bool) :
    SerInv (s.serialTransmitReadyHandler empty) := by
  have hf : s.frame = none := by
    cases hf : s.frame with
    | none => rfl
    | some f =>
      have := h.ints f hf
      rw [hi] at this
      cases this
  have hf' : (s.serialTransmitReadyHandler empty).frame = none := by
    rw [Serial.serialTransmitReadyHandler, Serial.serialWrite_frame, hf]
  refine ⟨?_, ?_, ?_, ?_, ?_⟩
  · have := h.bytes
    simp only [Serial.pending, hf, hf'] at this ⊢
    simpa [Serial.serialTransmitReadyHandler, Serial.sent_append_chars] using this
  · simpa [Serial.serialTransmitReadyHandler] using h.returned
  all_goals simp [hf']

theorem SerInv.step {s' : Serial} (hs : SerStep s s') (h : SerInv s) : SerInv s' := by
  cases hs with
  | enter buff len hf => exact h.enter hf buff len
  | add hf hi => exact h.add hf hi
  | leave empty hf hi => exact h.leave hf hi empty
  | transmitReady empty hi => exact h.transmitReady hi empty
  | setInts b hf => exact ⟨h.bytes, h.returned, by simp [hf], by simp [hf], by simp [hf]⟩

theorem serInv_serInit (buff : RingPos → UInt8) (b : Bool) : SerInv (Serial.serInit buff b) := by
  constructor <;> simp [Serial.serInit, Serial.pending]

end

/-! ## What the calls report -/

theorem SerCall.accepted_isPrefixOf (c : SerCall) (n : Nat) : c.accepted n <+: c.first n := by
  rw [accepted, first, Nat.min_comm, ← List.take_range]
  exact (List.take_prefix c.room (List.range n)).map c.buff

/-- The ring accepts all bytes of a call iff there is room for them. -/
theorem SerCall.accepted_eq_iff (c : SerCall) : c.accepted c.len.toNat = c.first c.len.toNat ↔
    c.len ≤ c.room := by
  constructor
  · intro h
    have := congrArg List.length h
    simp only [accepted, length_first] at this
    omega
  · intro h
    rw [accepted, Nat.min_eq_left (by omega)]

/-- In every run of `SER_write` calls and transmit-ready interrupts, whenever no call is in progress:
the bytes sent followed by those in the ring are the bytes reported as written iff every call found room
in the ring for all its bytes. -/
theorem serial_reported_iff (buff : RingPos → UInt8) (b : Bool) {s : Serial}
    (hrun : Relation.ReflTransGen SerStep (Serial.serInit buff b) s) (hf : s.frame = none) :
    s.Reported ↔ ∀ c ∈ s.returned, c.1.len ≤ c.1.room := by
  have h := hrun.invariant SerInv (serInv_serInit buff b) fun _ _ hs h => h.step hs
  have hbytes := h.bytes
  simp only [Serial.pending, hf, List.append_nil] at hbytes
  have hret : (s.returned.flatMap fun c => c.1.first c.2.toNat) =
      s.returned.flatMap fun c => c.1.first c.1.len.toNat := by
    simp only [List.flatMap_def]
    congr 1
    exact List.map_congr_left fun c hc => by rw [h.returned c hc]
  rw [Serial.Reported, hbytes, hret, List.flatMap_eq_iff_of_isPrefix fun c => c.1.accepted_isPrefixOf _]
  simp only [SerCall.accepted_eq_iff]

/-! ## A whole call -/

namespace Serial

/-- The loop of `SER_write`, for `n` turns. -/
def serWriteLoop : Nat → Serial → Serial
  | 0, s => s
  | n + 1, s =>
    match s.frame with
    | some f => serWriteLoop n (s.serWriteAdd f)
    | none => s

/-- `SER_write`, without an interrupt on the way. -/
def serWrite (s : Serial) (buff : Nat → UInt8) (len : Int) (empty : Bool) : Serial :=
  let s := serWriteLoop len.toNat (s.serWriteEnter buff len)
  match s.frame with
  | some f => s.serWriteLeave f empty
  | none => s

section
variable {s : Serial}

/-- The turns of the loop are steps. -/
theorem serWriteLoop_steps {n : Nat} {f : SerFrame} (hf : s.frame = some f)
    (hn : f.i + n = f.call.len ∨ n = 0 ∧ f.call.len ≤ f.i) :
    Relation.ReflTransGen SerStep s (serWriteLoop n s) ∧
      ∃ f', (serWriteLoop n s).frame = some f' ∧ ¬ f'.i < f'.call.len := by
  induction n generalizing s f with
  | zero => exact ⟨.refl, f, hf, by omega⟩
  | succ n ih =>
    obtain ⟨hsteps, hlast⟩ := ih (s := s.serWriteAdd f) (f := { f with i := f.i + 1 }) rfl
      (.inl (by simp only; omega))
    simp only [serWriteLoop, hf]
    exact ⟨.head (.add hf (by omega)) hsteps, hlast⟩

/-- A whole call is a sequence of steps, which leaves no call in progress. -/
theorem serWrite_steps (hf : s.frame = none) (buff : Nat → UInt8) (len : Int) (empty : Bool) :
    Relation.ReflTransGen SerStep s (s.serWrite buff len empty) ∧
      (s.serWrite buff len empty).frame = none := by
  obtain ⟨hloop, f, hf', hlast⟩ := serWriteLoop_steps (s := s.serWriteEnter buff len)
    (n := len.toNat) rfl (by simp only; omega)
  simp only [serWrite, hf']
  exact ⟨(hloop.head (.enter buff len hf)).tail (.leave empty hf' hlast), rfl⟩

end

end Serial

/-- A call with two bytes, after which the first one is sent and both are reported. -/
theorem serial_reported_two_bytes :
    ((Serial.serInit (fun _ => 0) true).serWrite (fun _ => 0x61) 2 true).Reported := by
  obtain ⟨hrun, hf⟩ := Serial.serWrite_steps (s := Serial.serInit (fun _ => 0) true) rfl
    (fun _ => 0x61) 2 true
  exact (serial_reported_iff (fun _ => 0) true hrun hf).2 (by decide)

/-- A call with sixteen bytes reports one byte too many, if the UART is busy. -/
theorem serial_not_reported_sixteen_bytes : ∃ s : Serial,
    Relation.ReflTransGen SerStep (Serial.serInit (fun _ => 0) true) s ∧ s.frame = none ∧
      ¬ s.Reported := by
  obtain ⟨hrun, hf⟩ := Serial.serWrite_steps (s := Serial.serInit (fun _ => 0) true) rfl
    (fun _ => 0x61) 16 false
  exact ⟨_, hrun, hf, by unfold Serial.Reported; decide⟩

end BanjOS
