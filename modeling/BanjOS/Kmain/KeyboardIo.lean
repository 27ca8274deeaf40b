import BanjOS.Devices.Keyboard
import BanjOS.Kmain.DriveInit

/-!
# The keyboard, from the key to the console

`ps2_irq_handler` translates a scan code with `scan_code_to_char` and puts the character in the ring; `keyboard_io` takes
the characters out with `getc` and prints them. A run of `KeyboardStep`s is followed with its history (`KeyboardLogStep`):
the scan codes that the handler has read, and the characters that the threads have received.
-/

namespace BanjOS

/-! ## The characters of the keys -/

/-- `scan_code_to_char`. -/
def scanCodeToChar : UInt8 → UInt8
  | 0x1E => 0x61 -- `KEYCODE_A_PRESSED`
  | 0x2B => 0x5C -- `KEYCODE_BACKSLASH_PRESSED`
  | 0x30 => 0x62 -- `KEYCODE_B_PRESSED`
  | 0x33 => 0x2C -- `KEYCODE_COMMA_PRESSED`
  | 0x2E => 0x63 -- `KEYCODE_C_PRESSED`
  | 0x20 => 0x64 -- `KEYCODE_D_PRESSED`
  | 0x09 => 0x38 -- `KEYCODE_EIGHT_PRESSED`
  | 0x0D => 0x3D -- `KEYCODE_EQUALS_PRESSED`
  | 0x12 => 0x65 -- `KEYCODE_E_PRESSED`
  | 0x06 => 0x35 -- `KEYCODE_FIVE_PRESSED`
  | 0x05 => 0x34 -- `KEYCODE_FOUR_PRESSED`
  | 0x21 => 0x66 -- `KEYCODE_F_PRESSED`
  | 0x29 => 0x60 -- `KEYCODE_GRAVE_ACCENT_PRESSED`
  | 0x22 => 0x67 -- `KEYCODE_G_PRESSED`
  | 0x23 => 0x68 -- `KEYCODE_H_PRESSED`
  | 0x17 => 0x69 -- `KEYCODE_I_PRESSED`
  | 0x24 => 0x6A -- `KEYCODE_J_PRESSED`
  | 0x48 => 0x38 -- `KEYCODE_KEYPAD_EIGHT_PRESSED`
  | 0x4C => 0x35 -- `KEYCODE_KEYPAD_FIVE_PRESSED`
  | 0x4B => 0x34 -- `KEYCODE_KEYPAD_FOUR_PRESSED`
  | 0x4A => 0x2D -- `KEYCODE_KEYPAD_MINUS_PRESSED`
  | 0x49 => 0x39 -- `KEYCODE_KEYPAD_NINE_PRESSED`
  | 0x4F => 0x31 -- `KEYCODE_KEYPAD_ONE_PRESSED`
  | 0x53 => 0x2E -- `KEYCODE_KEYPAD_PERIOD_PRESSED`
  | 0x47 => 0x37 -- `KEYCODE_KEYPAD_SEVEN_PRESSED`
  | 0x4D => 0x36 -- `KEYCODE_KEYPAD_SIX_PRESSED`
  | 0x37 => 0x2A -- `KEYCODE_KEYPAD_STAR_PRESSED`
  | 0x51 => 0x33 -- `KEYCODE_KEYPAD_THREE_PRESSED`
  | 0x50 => 0x32 -- `KEYCODE_KEYPAD_TWO_PRESSED`
  | 0x52 => 0x30 -- `KEYCODE_KEYPAD_ZERO_PRESSED`
  | 0x25 => 0x6B -- `KEYCODE_K_PRESSED`
  | 0x1A => 0x5B -- `KEYCODE_LEFT_BRACKET_PRESSED`
  | 0x26 => 0x6C -- `KEYCODE_L_PRESSED`
  | 0x0C => 0x2D -- `KEYCODE_MINUS_PRESSED`
  | 0x32 => 0x6D -- `KEYCODE_M_PRESSED`
  | 0x0A => 0x39 -- `KEYCODE_NINE_PRESSED`
  | 0x31 => 0x6E -- `KEYCODE_N_PRESSED`
  | 0x02 => 0x31 -- `KEYCODE_ONE_PRESSED`
  | 0x18 => 0x6F -- `KEYCODE_O_PRESSED`
  | 0x34 => 0x2E -- `KEYCODE_PERIOD_PRESSED`
  | 0x19 => 0x70 -- `KEYCODE_P_PRESSED`
  | 0x10 => 0x71 -- `KEYCODE_Q_PRESSED`
  | 0x1B => 0x5D -- `KEYCODE_RIGHT_BRACKET_PRESSED`
  | 0x13 => 0x72 -- `KEYCODE_R_PRESSED`
  | 0x27 => 0x3B -- `KEYCODE_SEMICOLON_PRESSED`
  | 0x08 => 0x37 -- `KEYCODE_SEVEN_PRESSED`
  | 0x28 => 0x27 -- `KEYCODE_SINGLE_QUOTE_PRESSED`
  | 0x07 => 0x36 -- `KEYCODE_SIX_PRESSED`
  | 0x35 => 0x2F -- `KEYCODE_SLASH_PRESSED`
  | 0x39 => 0x20 -- `KEYCODE_SPACE_PRESSED`
  | 0x1F => 0x73 -- `KEYCODE_S_PRESSED`
  | 0x0F => 0x09 -- `KEYCODE_TAB_PRESSED`
  | 0x04 => 0x33 -- `KEYCODE_THREE_PRESSED`
  | 0x03 => 0x32 -- `KEYCODE_TWO_PRESSED`
  | 0x14 => 0x74 -- `KEYCODE_T_PRESSED`
  | 0x16 => 0x75 -- `KEYCODE_U_PRESSED`
  | 0x2F => 0x76 -- `KEYCODE_V_PRESSED`
  | 0x11 => 0x77 -- `KEYCODE_W_PRESSED`
  | 0x2D => 0x78 -- `KEYCODE_X_PRESSED`
  | 0x15 => 0x79 -- `KEYCODE_Y_PRESSED`
  | 0x0B => 0x30 -- `KEYCODE_ZERO_ZERO_PRESSED`
  | 0x2C => 0x7A -- `KEYCODE_Z_PRESSED`
  | _ => 0

/-- The character that `ps2_irq_handler` has for a scan code, if it has one. -/
def keyChar (code : UInt8) : Option UInt8 :=
  if code = keycodeEnterPressed then some 0x0A
  else if scanCodeToChar code ≠ 0 then some (scanCodeToChar code)
  else none

/-- A key that is released has no character, and every character is `\n`, `\t` or printable. -/
theorem keyChar_eq_some {code c : UInt8} (h : keyChar code = some c) :
    code < 0x80 ∧ (c = 0x0A ∨ c = 0x09 ∨ 0x20 ≤ c ∧ c < 0x7F) := by
  have hall : ∀ n : Fin 256, ∀ c ∈ keyChar (UInt8.ofFin n),
      UInt8.ofFin n < 0x80 ∧ (c = 0x0A ∨ c = 0x09 ∨ 0x20 ≤ c ∧ c < 0x7F) := by
    decide +kernel
  exact hall code.toFin c h

/-- The handler puts the character in the ring, unless fifteen wait there. -/
theorem chars_ps2AddCode (ring : RingBuffer) (code : UInt8) :
    (ps2AddCode scanCodeToChar ring code).chars =
      ring.chars ++ (if ring.count < 15 then (keyChar code).toList else []) := by
  have hadd (c : UInt8) : (ringProducerAddChar ring c).2.chars =
      ring.chars ++ if ring.count < 15 then (some c).toList else [] := by
    rw [(ringProducerAddChar_eq ring c).2.1]
    split
    case isTrue => rfl
    case isFalse => exact (List.append_nil _).symm
  unfold ps2AddCode keyChar
  split
  case isTrue => exact hadd _
  case isFalse =>
    split
    case isTrue => exact hadd _
    case isFalse => rw [Option.toList_none, ite_self, List.append_nil]

/-! ## The history of a run -/

/-- A scan code that the handler has read, and the number of characters that waited in the ring then. -/
structure TypedCode where
  code : UInt8
  waiting : Nat

/-- The character that the ring has taken in. -/
def TypedCode.kept (t : TypedCode) : Option UInt8 := if t.waiting < 15 then keyChar t.code else none

/-- The scan codes that the handler has read, and the characters that threads have received, the oldest first. -/
structure KeyboardLog where
  typed : List TypedCode
  received : List (Nat × UInt8)

namespace KeyboardLog

/-- Nothing has happened. -/
def empty : KeyboardLog := ⟨[], []⟩

/-- The characters that were received, by whichever thread. -/
def chars (log : KeyboardLog) : List UInt8 := log.received.map Prod.snd

/-- The characters that a thread has received. -/
def receivedBy (log : KeyboardLog) (n : Nat) : List UInt8 := (log.received.filter fun r => r.1 = n).map Prod.snd

/-- The characters of the keys that were typed. -/
def keys (log : KeyboardLog) : List UInt8 := log.typed.filterMap fun t => keyChar t.code

/-- Those of them that the ring has taken in. -/
def kept (log : KeyboardLog) : List UInt8 := log.typed.filterMap TypedCode.kept

end KeyboardLog

/-- The steps with their history. -/
inductive KeyboardLogStep (st : ProcStatics) : Keyboard × KeyboardLog → Keyboard × KeyboardLog → Prop
  /-- `ps2_irq_handler` reads a scan code. -/
  | typed {k : Keyboard} {log : KeyboardLog} (code : UInt8) : k.handler = some .entered →
    KeyboardLogStep st (k, log)
      ({ k with handler := some .added, ring := ps2AddCode scanCodeToChar k.ring code },
        { log with typed := log.typed ++ [⟨code, k.ring.count⟩] })
  /-- The running thread takes a character. -/
  | received {k : Keyboard} {log : KeyboardLog} {c : UInt8} {ring : RingBuffer} : k.handler = none → k.here = .test →
    ringConsumerNext k.ring = some (c, ring) →
    KeyboardLogStep st (k, log)
      ({ k.move .taken with ring := ring }, { log with received := log.received ++ [(k.sched.curProc, c)] })
  /-- Any other step, which leaves the ring alone. -/
  | other {k k' : Keyboard} {log : KeyboardLog} : KeyboardStep st scanCodeToChar k k' → k.handler ≠ some .entered →
    k'.ring = k.ring → KeyboardLogStep st (k, log) (k', log)

section
variable {st : ProcStatics} {k k' : Keyboard} {log log' : KeyboardLog}

/-- A step with its history is a step. -/
theorem KeyboardLogStep.step (h : KeyboardLogStep st (k, log) (k', log')) : KeyboardStep st scanCodeToChar k k' := by
  cases h with
  | typed code hent => exact .add code hent
  | received hnone hhere hnext => exact .take hnone hhere hnext
  | other hs => exact hs

/-- Every step has a history. -/
theorem KeyboardStep.logged (h : KeyboardStep st scanCodeToChar k k') (log : KeyboardLog) :
    ∃ log', KeyboardLogStep st (k, log) (k', log') := by
  have hs := h
  cases h with
  | add code hent => exact ⟨_, .typed code hent⟩
  | take hnone hhere hnext => exact ⟨_, .received hnone hhere hnext⟩
  | _ => exact ⟨log, .other hs (by simp [*]) rfl⟩

/-- Every run has a history. -/
theorem exists_keyboardLog {k₀ : Keyboard} (hrun : Relation.ReflTransGen (KeyboardStep st scanCodeToChar) k₀ k) :
    ∃ log, Relation.ReflTransGen (KeyboardLogStep st) (k₀, .empty) (k, log) := by
  induction hrun with
  | refl => exact ⟨_, .refl⟩
  | tail _ hs ih =>
    rcases ih with ⟨log, hlog⟩
    rcases hs.logged log with ⟨log', hs'⟩
    exact ⟨log', hlog.tail hs'⟩

/-- Without its history a run is a run. -/
theorem keyboardRun_of_log {p p' : Keyboard × KeyboardLog} (hrun : Relation.ReflTransGen (KeyboardLogStep st) p p') :
    Relation.ReflTransGen (KeyboardStep st scanCodeToChar) p.1 p'.1 :=
  hrun.lift Prod.fst fun _ _ hs => hs.step

/-! ## No character lost or doubled -/

/-- What was received and what is in the ring is what the ring has taken in, in the same order. -/
theorem KeyboardLogStep.conserves (h : KeyboardLogStep st (k, log) (k', log'))
    (hlog : log.chars ++ k.ring.chars = log.kept) : log'.chars ++ k'.ring.chars = log'.kept := by
  cases h with
  | typed code hent =>
    have hkept : (⟨code, k.ring.count⟩ : TypedCode).kept.toList =
        if k.ring.count < 15 then (keyChar code).toList else [] := by
      rw [TypedCode.kept]
      split <;> rfl
    calc log.chars ++ (ps2AddCode scanCodeToChar k.ring code).chars
        = log.kept ++ (⟨code, k.ring.count⟩ : TypedCode).kept.toList := by
          rw [chars_ps2AddCode, ← List.append_assoc, hlog, hkept]
      _ = (log.typed ++ [(⟨code, k.ring.count⟩ : TypedCode)]).filterMap TypedCode.kept := by
          rw [List.filterMap_append, KeyboardLog.kept, List.filterMap_cons]
          cases (⟨code, k.ring.count⟩ : TypedCode).kept <;> rfl
  | @received _ _ c ring hnone hhere hnext =>
    calc (log.received ++ [(k.sched.curProc, c)]).map Prod.snd ++ ring.chars
        = log.chars ++ (c :: ring.chars) := by
          rw [List.map_append, List.append_assoc]
          rfl
      _ = log.kept := by rw [← (ringConsumerNext_eq_some hnext).1, hlog]
  | other _ _ hring => rw [hring, hlog]

end

/-- Where one function only drops elements that another one keeps, they agree on a list iff nothing is dropped. -/
theorem filterMap_eq_iff_of_drops {α β : Type} {f g : α → Option β} (hdrop : ∀ a, f a = g a ∨ f a = none) (l : List α) :
    l.filterMap f = l.filterMap g ↔ ∀ a ∈ l, f a = g a := by
  have hlength (l : List α) : (l.filterMap f).length ≤ (l.filterMap g).length := by
    induction l with
    | nil => exact Nat.le_refl _
    | cons a l ih =>
      rcases hdrop a with h | h
      · rw [List.filterMap_cons, List.filterMap_cons, h]
        cases g a with
        | none => exact ih
        | some b => exact Nat.succ_le_succ ih
      · rw [List.filterMap_cons_none h, List.filterMap_cons]
        cases g a with
        | none => exact ih
        | some b => exact Nat.le_succ_of_le ih
  constructor
  · intro heq
    induction l with
    | nil => exact List.forall_mem_nil _
    | cons a l ih =>
      have ha : f a = g a := by
        rcases hdrop a with h | h
        · exact h
        · cases hg : g a with
          | none => exact h
          | some b =>
            -- the other list is longer
            have hle := hlength l
            rw [List.filterMap_cons_none h, List.filterMap_cons_some hg] at heq
            rw [heq, List.length_cons] at hle
            omega
      refine List.forall_mem_cons.2 ⟨ha, ih ?_⟩
      rw [List.filterMap_cons, List.filterMap_cons, ha] at heq
      cases hg : g a with
      | none => rwa [hg] at heq
      | some b =>
        rw [hg] at heq
        exact (List.cons.inj heq).2
  · exact fun h => List.filterMap_congr h

theorem TypedCode.kept_or (t : TypedCode) : t.kept = keyChar t.code ∨ t.kept = none := by
  unfold kept
  split
  case isTrue => exact .inl rfl
  case isFalse => exact .inr rfl

/-- A character is kept where the ring has room for it. -/
theorem TypedCode.kept_eq_iff (t : TypedCode) : t.kept = keyChar t.code ↔ (keyChar t.code ≠ none → t.waiting < 15) := by
  unfold kept
  split
  case isTrue h => exact iff_of_true rfl fun _ => h
  case isFalse h => exact ⟨fun heq hne => absurd heq.symm hne, fun hroom => (not_not.1 fun hne => h (hroom hne)).symm⟩

/-! ## The console -/

/-- `"%c"`. -/
def charFormat : List Piece := [.char]

/-- The loop of `keyboard_io` over the characters that `getc` returns; it returns an `int`, extended with the sign of the
`char`. -/
def keyboardIo : List UInt8 → Option (List ConsoleCall)
  | [] => some []
  | c :: cs => do
    let calls ← printkCalls charFormat (by decide) (oneArg (c.toBitVec.signExtend 64))
    let rest ← keyboardIo cs
    return calls ++ rest

/-- Every character is printed as it is, on both outputs. -/
theorem keyboardIo_prints (cs : List UInt8) : ∃ calls,
    keyboardIo cs = some calls ∧ vgaChars calls = cs.map UInt8.toInt8 ∧ serChars calls = cs.map UInt8.toInt8 := by
  induction cs with
  | nil => exact ⟨[], rfl, rfl, rfl⟩
  | cons c cs ih =>
    rcases ih with ⟨rest, hrest, hvga, hser⟩
    rcases printkCalls_eq charFormat (by decide) (oneArg (c.toBitVec.signExtend 64))
      (by simp [charFormat, withArgs, Piece.NegativeHex]) (by simp [charFormat, withArgs, Piece.NegativeDecimal])
      with ⟨calls, hcalls, hcallsvga, hcallsser⟩
    have htext : renderAll (oneArg (c.toBitVec.signExtend 64)) charFormat = [c.toInt8] := by
      have hbits : (c.toBitVec.signExtend 64).setWidth 8 = c.toBitVec := by
        ext i hi
        have hi' : i < 64 := by omega
        simp [BitVec.getElem_signExtend, hi, hi']
      exact congrArg (fun b => [Int8.ofBitVec b]) hbits
    rw [htext] at hcallsvga hcallsser
    refine ⟨calls ++ rest, by rw [keyboardIo, hcalls, hrest]; rfl, ?_, ?_⟩
    · rw [vgaChars_append, hcallsvga, hvga]
      rfl
    · rw [serChars_append, hcallsser, hser]
      rfl

/-- In every run of threads in `getc`, keyboard interrupts and anything else, from `ps2_initialize` on: what the threads
have received, followed by what is in the ring, is what the ring has taken in; that is all that was typed iff every
character found fewer than fifteen waiting; a thread that is blocked on the keyboard has nothing left to receive; and
what `keyboard_io` prints, if it is the only reader, is what was typed, up to the characters in the ring. -/
theorem keyboard_echo (st : ProcStatics) (k₀ k : Keyboard) (log : KeyboardLog) (h₀ : KeyboardReady st k₀)
    (hrun : Relation.ReflTransGen (KeyboardLogStep st) (k₀, .empty) (k, log)) :
    log.chars ++ k.ring.chars = log.kept ∧
    (log.kept = log.keys ↔ ∀ t ∈ log.typed, keyChar t.code ≠ none → t.waiting < 15) ∧
    (k.handler ≠ some .added → k.sched.head k.ring.blocked ≠ 0 → log.chars = log.kept) ∧
    ∀ n, (∀ r ∈ log.received, r.1 = n) → ∃ calls, keyboardIo (log.receivedBy n) = some calls ∧
      vgaChars calls ++ k.ring.chars.map UInt8.toInt8 = log.kept.map UInt8.toInt8 ∧ serChars calls = vgaChars calls := by
  have hconserves : log.chars ++ k.ring.chars = log.kept :=
    hrun.invariant (fun p => p.2.chars ++ p.1.ring.chars = p.2.kept) h₀.chars fun _ _ hs h => hs.conserves h
  have hinv : KeyboardInv st k :=
    (keyboardRun_of_log hrun).invariant (KeyboardInv st) h₀.inv fun _ _ hs h => h.step hs
  refine ⟨hconserves, ?_, fun hadded hhead => ?_, fun n hn => ?_⟩
  · exact (filterMap_eq_iff_of_drops TypedCode.kept_or _).trans
      (forall₂_congr fun t _ => t.kept_eq_iff)
  · have hempty : k.ring.chars = [] := not_not.1 fun hne => hhead (hinv.wake hadded hne)
    rwa [hempty, List.append_nil] at hconserves
  · rcases keyboardIo_prints (log.receivedBy n) with ⟨calls, hcalls, hvga, hser⟩
    have hall : log.receivedBy n = log.chars := by
      rw [KeyboardLog.receivedBy, List.filter_eq_self.2 fun r hr => decide_eq_true (hn r hr), KeyboardLog.chars]
    refine ⟨calls, hcalls, ?_, hser.trans hvga.symm⟩
    rw [hvga, hall, ← List.map_append, hconserves]

/-- `A` is pressed and released, and the thread receives the character. -/
theorem keyboard_echo_one_reader :
    ∃ k log, Relation.ReflTransGen (KeyboardLogStep someProcStatics) (oneReader, .empty) (k, log) ∧
      log.typed = [⟨0x1E, 0⟩, ⟨0x9E, 1⟩] ∧ log.kept = log.keys ∧
      ∃ calls, keyboardIo (log.receivedBy 0x40) = some calls ∧ vgaChars calls = [chr 'a'] := by
  have hready : KeyboardReady someProcStatics oneReader :=
    ⟨rfl, rfl, by decide, by decide, fun _ => rfl⟩
  have h₁ : Relation.ReflTransGen (KeyboardLogStep someProcStatics) (oneReader, .empty) _ :=
    .single (.other (.irq rfl rfl) nofun rfl)
  have h₂ := h₁.tail (.typed 0x1E rfl)
  have h₃ := h₂.tail (.other (@KeyboardStep.unblock _ _ _ 2 _ rfl rfl) nofun rfl)
  have h₄ := h₃.tail (.other (.eoi rfl) nofun rfl)
  have h₅ := h₄.tail (.other (.irq rfl rfl) nofun rfl)
  have h₆ := h₅.tail (.typed 0x9E rfl)
  have h₇ := h₆.tail (.other (@KeyboardStep.unblock _ _ _ 2 _ rfl rfl) nofun rfl)
  have h₈ := h₇.tail (.other (.eoi rfl) nofun rfl)
  have h₉ := h₈.tail (.other (.cli rfl (by decide) (.inl rfl)) nofun rfl)
  have h₁₀ := h₉.tail (.received rfl rfl rfl)
  rcases keyboard_echo _ _ _ _ hready h₁₀ with ⟨-, hkept, -, hprints⟩
  rcases hprints 0x40 (by decide) with ⟨calls, hcalls, hvga, -⟩
  refine ⟨_, _, h₁₀, rfl, hkept.2 (by decide), calls, hcalls, ?_⟩
  exact (List.append_nil _).symm.trans (hvga.trans (by decide))

end BanjOS
