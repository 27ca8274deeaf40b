import BanjOS.Console.Strings

/-!
# `printk`

`printk.c`, with every character it passes to `VGA_display_char` and to `SER_write` and every character of
the format it reads. The format is memory, so that a cursor that leaves the string reads what comes after
it. The macros are definitions over the value that C gives to `n`, and their instances apply them at the
instance's type: an unsigned type has the value `toNat` and a signed one `toInt`, and `PRINT_HEX` is once
instantiated at a signed type.
-/

namespace BanjOS

/-- A character of the source. -/
def chr (c : Char) : Int8 := Int8.ofNat c.toNat

/-! ## Characters -/

/-- A call to one of the two outputs. -/
inductive ConsoleCall where
  | vga (c : Int8)
  | ser (c : Int8)

/-- What a function of `printk.c` outputs, and the `int` it returns. -/
structure Printed where
  calls : List ConsoleCall
  ret : BitVec 32

/-- `print_char`. -/
def printChar (c : Int8) : Printed := ⟨[.vga c, .ser c], 1⟩

/-- `print_percent`. -/
def printPercent : Printed := printChar (chr '%')

/-- The loop of `print_string`, with the characters from `*s` on. -/
def printStringFrom (printed : BitVec 32) : List Int8 → Printed
  | [] => ⟨[], printed⟩
  | c :: s =>
    let p := printChar c
    let q := printStringFrom (printed + p.ret) s
    ⟨p.calls ++ q.calls, q.ret⟩

/-- `print_string`. -/
def printString (s : CString) : Printed := printStringFrom 0 s.chars

/-! ## Numbers -/

/-- The first loop of `PRINT_UNSIGNED` and `PRINT_HEX`: the characters put into `buf`, the lowest digit
first, with `room` bytes left there. -/
def digitLoop (base : Int) (digit : Int → Int) : (room : Nat) → Int → List Int8
  | 0, _ => []
  | room + 1, n =>
    Int8.ofInt (digit (n.tmod base)) ::
      if n.tdiv base > 0 then digitLoop base digit room (n.tdiv base) else []

/-- The second loop: `buf` from its end to its start. -/
def printBuf (buf : List Int8) : Printed :=
  ⟨buf.reverse.flatMap fun c => (printChar c).calls, BitVec.ofNat 32 buf.length⟩

/-- `PRINT_UNSIGNED`. -/
def printUnsigned (n : Int) : Printed := printBuf (digitLoop 10 (fun d => 48 + d) 32 n)

/-- `PRINT_HEX`. -/
def printHex (n : Int) : Printed :=
  printBuf (digitLoop 16 (fun d => if d < 10 then 48 + d else 97 + d - 10) 32 n)

/-- `PRINT_SIGNED`, with `print_unsigned` of the same size. -/
def printSigned {w : Nat} (printUnsigned : BitVec w → Printed) (n : BitVec w) : Printed :=
  if n.toInt < 0 then
    let p := printUnsigned (-n)
    ⟨.vga (chr '-') :: p.calls, 1 + p.ret⟩
  else printUnsigned n

/-- `PRINT_SIZED`, with the three functions of the same size. -/
def printSized {w : Nat} (printSigned printUnsigned printHex : BitVec w → Printed) (n : BitVec w)
    (specifier : Int8) : Printed :=
  if specifier = chr 'd' then printSigned n
  else if specifier = chr 'u' then printUnsigned n
  else if specifier = chr 'x' then printHex n
  else ⟨[], 0⟩

def printUnsignedInt (n : BitVec 32) : Printed := printUnsigned n.toNat
def printUnsignedShort (n : BitVec 16) : Printed := printUnsigned n.toNat
def printUnsignedLong (n : BitVec 64) : Printed := printUnsigned n.toNat
def printUnsignedLongLong (n : BitVec 64) : Printed := printUnsigned n.toNat

def printInt (n : BitVec 32) : Printed := printSigned printUnsignedInt n
def printShort (n : BitVec 16) : Printed := printSigned printUnsignedShort n
def printLong (n : BitVec 64) : Printed := printSigned printUnsignedLong n
def printLongLong (n : BitVec 64) : Printed := printSigned printUnsignedLongLong n

def printHexInt (n : BitVec 32) : Printed := printHex n.toNat
def printHexShort (n : BitVec 16) : Printed := printHex n.toNat
def printHexLong (n : BitVec 64) : Printed := printHex n.toNat
/-- The only instance of `PRINT_HEX` at a signed type. -/
def printHexLongLong (n : BitVec 64) : Printed := printHex n.toInt
def printHexPointer (n : BitVec 64) : Printed := printHex n.toNat

def printSizedShort : BitVec 16 → Int8 → Printed := printSized printShort printUnsignedShort printHexShort
def printSizedLong : BitVec 64 → Int8 → Printed := printSized printLong printUnsignedLong printHexLong
def printSizedLongLong : BitVec 64 → Int8 → Printed :=
  printSized printLongLong printUnsignedLongLong printHexLongLong

/-! ## The format loop -/

/-- The arguments after `fmt`: the eight bytes `va_arg` finds for each, of which it takes the low ones, and
the strings that are at the addresses among them. -/
structure VaArgs where
  slot : Nat → BitVec 64
  string : BitVec 64 → CString

/-- `printk` between two steps: where `fmt` points to, the number of arguments taken, `printed`, the calls so
far, and the positions of the format that were read. -/
structure PrintkState where
  pos : Nat
  arg : Nat
  printed : BitVec 64
  calls : List ConsoleCall
  read : List Nat

namespace PrintkState

/-- `*fmt` is read. -/
def see (s : PrintkState) : PrintkState := { s with read := s.read ++ [s.pos] }

/-- `fmt += 1`. -/
def next (s : PrintkState) : PrintkState := { s with pos := s.pos + 1 }

/-- `printed += ..`. -/
def print (s : PrintkState) (p : Printed) : PrintkState :=
  { s with printed := s.printed + p.ret.signExtend 64, calls := s.calls ++ p.calls }

/-- `printed += ..(va_arg(args, ..))`. -/
def printArg (s : PrintkState) (va : VaArgs) (p : BitVec 64 → Printed) : PrintkState :=
  { s with arg := s.arg + 1 }.print (p (va.slot s.arg))

/-- `return printed`. -/
def ret (s : PrintkState) : BitVec 32 := s.printed.setWidth 32

end PrintkState

section
variable (fmt : Nat → Int8) (va : VaArgs)

/-- The `switch` of `printk`, at the character after the `%`. -/
def printkSwitch (s : PrintkState) : PrintkState :=
  let c := fmt s.pos
  if c = chr '%' then s.print printPercent
  else if c = chr 's' then s.printArg va fun v => printString (va.string v)
  else if c = chr 'c' then s.printArg va fun v => printChar (Int8.ofBitVec (v.setWidth 8))
  else if c = chr 'd' then s.printArg va fun v => printInt (v.setWidth 32)
  else if c = chr 'u' then s.printArg va fun v => printUnsignedInt (v.setWidth 32)
  else if c = chr 'x' then s.printArg va fun v => printHexInt (v.setWidth 32)
  else if c = chr 'p' then s.printArg va printHexPointer
  else if c = chr 'h' then
    let s := s.next.see
    s.printArg va fun v => printSizedShort (v.setWidth 16) (fmt s.pos)
  else if c = chr 'l' then
    let s := s.next.see
    s.printArg va fun v => printSizedLong v (fmt s.pos)
  else if c = chr 'q' then
    let s := s.next.see
    s.printArg va fun v => printSizedLongLong v (fmt s.pos)
  else (s.print (printChar (chr '%'))).print (printChar c)

/-- The body of the loop of `printk`. -/
def printkBody (s : PrintkState) : PrintkState :=
  if fmt s.pos = chr '%' then (printkSwitch fmt va s.next.see).next
  else (s.print (printChar (fmt s.pos))).next

/-- The loop of `printk`: `none` is a loop that has not come to its end after `fuel` rounds. -/
def printkLoop : (fuel : Nat) → PrintkState → Option PrintkState
  | 0, _ => none
  | fuel + 1, s =>
    let s := s.see
    if fmt s.pos = 0 then some s else printkLoop fuel (printkBody fmt va s)

/-- `printk`, up to its `return`. -/
def printk (fuel : Nat) : Option PrintkState := printkLoop fmt va fuel ⟨0, 0, 0, [], []⟩

end

end BanjOS
