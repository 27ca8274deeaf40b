import BanjOS.Lib.Descriptors
import BanjOS.Lib.Paging
import BanjOS.Lib.Run

/-!
# From the boot loader to 64-bit mode

`boot.asm` and `long_mode_init.asm`, up to the call of `kmain`. Either one of the three checks fails and its code is on the
screen, or the processor is in 64-bit mode with the first gibibyte mapped to itself and nothing else (`start_outcome`).

Registers are numbers below `2 ^ 32`. Memory is accessed through the tables once paging is on; an access that is split over
two frames that are not consecutive is left out.
-/

namespace BanjOS

open ByteMem BitFields X86

/-! ## The processor -/

/-- The registers that `boot.asm` uses. -/
structure BootCpu where
  eax : Nat
  ebx : Nat
  ecx : Nat
  edx : Nat
  esp : Nat
  eflags : Nat
  cr0 : Nat
  cr3 : Nat
  cr4 : Nat
  efer : Nat
  mem : Mem

/-- Why `boot.asm` does not reach `kmain`. -/
inductive BootStop
  /-- `hlt` at the end of `error`. -/
  | halted (mem : Mem)
  | fault
  /-- The loop was not followed to its end. -/
  | outOfFuel

/-- The routines that are called. -/
inductive BootCall
  | checkMultiboot
  | checkCpuid
  | checkLongMode
  | setUpPageTables
  | enablePaging
  | kmain

/-- What the code finds: what `cpuid` answers (`eax`, `ebx`, `ecx`, `edx`), whether the ID flag can be changed, the return
addresses of the calls, and the addresses of the data. -/
structure BootEnv where
  cpuid : Nat → Nat × Nat × Nat × Nat
  idWritable : Bool
  returnTo : BootCall → Nat
  p4Table : Nat
  p3Table : Nat
  p2Table : Nat
  stackTop : Nat
  gdt64 : Nat
  gdtPointer : Nat
  multibootTagAddr : Nat

namespace BootCpu

/-- Where an address leads. -/
def at? (c : BootCpu) (a : Nat) : Option Nat :=
  if c.cr0.testBit 31 then (translateAddr c.mem c.cr3 a).map Mapping.phys else some a

/-- Where an access of `n` bytes goes. -/
def phys (c : BootCpu) (a n : Nat) : Except BootStop Nat :=
  match c.at? a with
  | none => .error .fault
  | some p => if ∀ i < n, c.at? (a + i) = some (p + i) then .ok p else .error .fault

/-- A load of `n` bytes. -/
def load (c : BootCpu) (a n : Nat) : Except BootStop Nat := do
  let p ← c.phys a n
  return loadLE c.mem p n

/-- A store of `n` bytes. -/
def store (c : BootCpu) (a n v : Nat) : Except BootStop BootCpu := do
  let p ← c.phys a n
  return { c with mem := storeLE c.mem p n v }

/-- `push`. -/
def push (v : Nat) (c : BootCpu) : Except BootStop BootCpu :=
  let esp := (c.esp + 2 ^ 32 - 4) % 2 ^ 32
  { c with esp }.store esp 4 v

/-- `pop`. -/
def pop (c : BootCpu) : Except BootStop (Nat × BootCpu) := do
  let v ← c.load c.esp 4
  return (v, { c with esp := (c.esp + 4) % 2 ^ 32 })

end BootCpu

/-- `popfd`. -/
def BootEnv.popfd (env : BootEnv) (c : BootCpu) : Except BootStop BootCpu := do
  let (v, c) ← c.pop
  return { c with
    eflags := if env.idWritable ∨ v.testBit 21 = c.eflags.testBit 21 then v else v ^^^ 1 <<< 21 }

/-- `call`, up to the `ret` of the routine, which must find the address that was pushed. -/
def BootEnv.call (env : BootEnv) (f : BootCall) (body : BootCpu → Except BootStop BootCpu) (c : BootCpu) :
    Except BootStop BootCpu := do
  let c ← c.push (env.returnTo f)
  let c ← body c
  let (v, c) ← c.pop
  if v = env.returnTo f then return c else .error .fault

/-! ## `boot.asm` -/

/-- `error`: the text and the code `al` on the screen. -/
def bootError (al : Nat) (c : BootCpu) : Mem :=
  let m := storeLE c.mem 0xb8000 4 0x4f524f45
  let m := storeLE m 0xb8004 4 0x4f3a4f52
  let m := storeLE m 0xb8008 4 0x4f204f20
  storeLE m 0xb800a 1 al

/-- `check_multiboot`. -/
def checkMultiboot (c : BootCpu) : Except BootStop BootCpu :=
  if c.eax ≠ 0x36d76289 then .error (.halted (bootError 0x30 c)) else .ok c

/-- `check_cpuid`. -/
def checkCpuid (env : BootEnv) (c : BootCpu) : Except BootStop BootCpu := do
  let c ← c.push c.eflags
  let (eax, c) ← c.pop
  let c := { c with eax }
  let c := { c with ecx := c.eax }
  let c := { c with eax := c.eax ^^^ 1 <<< 21 }
  let c ← c.push c.eax
  let c ← env.popfd c
  let c ← c.push c.eflags
  let (eax, c) ← c.pop
  let c := { c with eax }
  let c ← c.push c.ecx
  let c ← env.popfd c
  if c.eax = c.ecx then .error (.halted (bootError 0x31 c)) else .ok c

/-- `cpuid`. -/
def BootEnv.doCpuid (env : BootEnv) (c : BootCpu) : BootCpu :=
  let (eax, ebx, ecx, edx) := env.cpuid c.eax
  { c with eax, ebx, ecx, edx }

/-- `check_long_mode`. -/
def checkLongMode (env : BootEnv) (c : BootCpu) : Except BootStop BootCpu :=
  let c := { c with eax := 0x80000000 }
  let c := env.doCpuid c
  if c.eax < 0x80000001 then .error (.halted (bootError 0x32 c))
  else
    let c := { c with eax := 0x80000001 }
    let c := env.doCpuid c
    if c.edx &&& 1 <<< 29 = 0 then .error (.halted (bootError 0x32 c)) else .ok c

/-- The loop `.map_p2_table`. -/
def mapP2Table (env : BootEnv) : (fuel : Nat) → BootCpu → Except BootStop BootCpu
  | 0, _ => .error .outOfFuel
  | fuel + 1, c => do
    let c := { c with eax := 0x200000 }
    let product := c.eax * c.ecx
    let c := { c with eax := product % 2 ^ 32, edx := product / 2 ^ 32 }
    let c := { c with eax := c.eax ||| 0b10000011 }
    let c ← c.store ((env.p2Table + c.ecx * 8) % 2 ^ 32) 4 c.eax
    let c := { c with ecx := (c.ecx + 1) % 2 ^ 32 }
    if c.ecx ≠ 512 then mapP2Table env fuel c else .ok c

/-- `set_up_page_tables`. -/
def setUpPageTables (env : BootEnv) (fuel : Nat) (c : BootCpu) : Except BootStop BootCpu := do
  let c := { c with eax := env.p3Table }
  let c := { c with eax := c.eax ||| 0b11 }
  let c ← c.store env.p4Table 4 c.eax
  let c := { c with eax := env.p2Table }
  let c := { c with eax := c.eax ||| 0b11 }
  let c ← c.store env.p3Table 4 c.eax
  let c := { c with ecx := 0 }
  mapP2Table env fuel c

/-- `enable_paging`. -/
def enablePaging (env : BootEnv) (c : BootCpu) : BootCpu :=
  let c := { c with eax := env.p4Table }
  let c := { c with cr3 := c.eax }
  let c := { c with eax := c.cr4 }
  let c := { c with eax := c.eax ||| 1 <<< 5 }
  let c := { c with cr4 := c.eax }
  let c := { c with ecx := 0xC0000080 }
  let c := { c with eax := c.efer % 2 ^ 32, edx := c.efer / 2 ^ 32 }
  let c := { c with eax := c.eax ||| 1 <<< 8 }
  let c := { c with efer := c.edx * 2 ^ 32 + c.eax }
  let c := { c with eax := c.cr0 }
  let c := { c with eax := c.eax ||| 1 <<< 31 }
  { c with cr0 := c.eax }

/-- The state in 64-bit mode, at the entry of `kmain`: the segment registers for data all hold `data`. -/
structure LongMode where
  mem : Mem
  cr3 : Nat
  gdtr : TableReg
  cs : Nat
  data : Nat
  rsp : Nat

/-- `lgdt`, the far jump to `long_mode_start`, and `long_mode_start` up to the call of `kmain`. -/
def enterLongMode (env : BootEnv) (c : BootCpu) : Except BootStop LongMode := do
  let limit ← c.load env.gdtPointer 2
  let base ← c.load (env.gdtPointer + 2) 4
  let gdtr : TableReg := ⟨limit, base⟩
  let d ← c.load (gdtr.descriptor 0x8) 8
  if c.cr4.testBit 5 ∧ c.efer.testBit 8 ∧ Selects gdtr 0x8 8 ∧ IsKernelCode d then do
    let rsp := (c.esp + 2 ^ 64 - 8) % 2 ^ 64
    let c ← c.store rsp 8 (env.returnTo .kmain)
    return ⟨c.mem, c.cr3, gdtr, 0x8, 0, rsp⟩
  else .error .fault

/-- `start`. -/
def start (env : BootEnv) (fuel : Nat) (c : BootCpu) : Except BootStop LongMode := do
  let c := { c with esp := env.stackTop }
  let c ← c.store env.multibootTagAddr 4 c.ebx
  let c ← env.call .checkMultiboot checkMultiboot c
  let c ← env.call .checkCpuid (checkCpuid env) c
  let c ← env.call .checkLongMode (checkLongMode env) c
  let c ← env.call .setUpPageTables (setUpPageTables env fuel) c
  let c ← env.call .enablePaging (fun c => .ok (enablePaging env c)) c
  enterLongMode env c

/-! ## Before paging -/

section
variable {env : BootEnv} {c c' : BootCpu}

namespace BootCpu

/-- Without paging addresses are what they are. -/
theorem phys_off (h : c.cr0.testBit 31 = false) (a n : Nat) : c.phys a n = .ok a := by
  have hat (b : Nat) : c.at? b = some b := if_neg (by rw [h]; exact Bool.false_ne_true)
  rw [phys, hat]
  exact if_pos fun i _ => hat _

theorem store_off (h : c.cr0.testBit 31 = false) (a n v : Nat) :
    c.store a n v = .ok { c with mem := storeLE c.mem a n v } := by
  rw [store, phys_off h]
  rfl

/-- The state after a push. -/
def pushed (v : Nat) (c : BootCpu) : BootCpu := { c with esp := c.esp - 4, mem := storeLE c.mem (c.esp - 4) 4 v }

theorem push_off (h : c.cr0.testBit 31 = false) (hesp : 4 ≤ c.esp) (hlt : c.esp < 2 ^ 32) (v : Nat) :
    c.push v = .ok (c.pushed v) := by
  have hsub : (c.esp + 2 ^ 32 - 4) % 2 ^ 32 = c.esp - 4 := by omega
  rw [push, hsub]
  exact store_off (c := { c with esp := c.esp - 4 }) h _ _ _

/-- What is popped after a push, if the word is still there. -/
theorem pop_pushed {v : Nat} (hphys : c'.phys (c.esp - 4) 4 = .ok (c.esp - 4)) (hesp' : c'.esp = c.esp - 4) (hesp : 4 ≤ c.esp)
    (hlt : c.esp < 2 ^ 32) (hword : loadLE c'.mem (c.esp - 4) 4 = v) : c'.pop = .ok (v, { c' with esp := c.esp }) := by
  have hadd : (c.esp - 4 + 4) % 2 ^ 32 = c.esp := by omega
  rw [pop, load, hesp', hphys, hadd]
  simp only [bind, Except.bind, pure, Except.pure, hword]

end BootCpu

/-- The word that was pushed. -/
theorem loadLE_pushed {v : Nat} (hv : v < 2 ^ 32) : loadLE (c.pushed v).mem (c.esp - 4) 4 = v :=
  (loadLE_storeLE_self _ _ 4 _).trans (Nat.mod_eq_of_lt hv)

/-- A push and a pop. -/
theorem pop_after_push (h : c.cr0.testBit 31 = false) (hesp : 4 ≤ c.esp) (hlt : c.esp < 2 ^ 32) {v : Nat} (hv : v < 2 ^ 32) :
    (c.pushed v).pop = .ok (v, { c with mem := (c.pushed v).mem }) :=
  BootCpu.pop_pushed (BootCpu.phys_off (c := c.pushed v) h _ _) rfl hesp hlt (loadLE_pushed hv)

/-- `popfd` after a push. -/
theorem popfd_after_push (h : c.cr0.testBit 31 = false) (hesp : 4 ≤ c.esp) (hlt : c.esp < 2 ^ 32) {v : Nat} (hv : v < 2 ^ 32) :
    env.popfd (c.pushed v) = .ok { c with
      mem := (c.pushed v).mem
      eflags := if env.idWritable ∨ v.testBit 21 = c.eflags.testBit 21 then v else v ^^^ 1 <<< 21 } := by
  rw [BootEnv.popfd, pop_after_push h hesp hlt hv]
  rfl

/-- A routine returns. -/
theorem BootEnv.call_ok (h : c.cr0.testBit 31 = false) (hesp : 4 ≤ c.esp) (hlt : c.esp < 2 ^ 32) {f : BootCall}
    {body : BootCpu → Except BootStop BootCpu} (hbody : body (c.pushed (env.returnTo f)) = .ok c')
    (hphys : c'.phys (c.esp - 4) 4 = .ok (c.esp - 4)) (hesp' : c'.esp = c.esp - 4)
    (hword : loadLE c'.mem (c.esp - 4) 4 = env.returnTo f) : env.call f body c = .ok { c' with esp := c.esp } := by
  rw [call, BootCpu.push_off h hesp hlt]
  simp only [bind, Except.bind, hbody, BootCpu.pop_pushed hphys hesp' hesp hlt hword, if_true, pure, Except.pure]

/-- A routine stops. -/
theorem BootEnv.call_error (h : c.cr0.testBit 31 = false) (hesp : 4 ≤ c.esp) (hlt : c.esp < 2 ^ 32) {f : BootCall}
    {body : BootCpu → Except BootStop BootCpu} {e : BootStop} (hbody : body (c.pushed (env.returnTo f)) = .error e) :
    env.call f body c = .error e := by
  rw [call, BootCpu.push_off h hesp hlt]
  simp only [bind, Except.bind, hbody]

/-! ## The checks -/

/-- Nothing but the registers for data and memory in `R` is different. -/
structure BootKeeps (R : Nat → Prop) (c c' : BootCpu) : Prop where
  esp : c'.esp = c.esp
  eflags : c'.eflags = c.eflags
  control : c'.cr0 = c.cr0 ∧ c'.cr4 = c.cr4 ∧ c'.efer = c.efer
  mem : ∀ b, ¬ R b → c'.mem b = c.mem b

/-- `check_cpuid` finds out whether the ID flag can be changed, and leaves the flags as they were. -/
theorem checkCpuid_spec (h : c.cr0.testBit 31 = false) (hesp : 4 ≤ c.esp) (hlt : c.esp < 2 ^ 32) (hflags : c.eflags < 2 ^ 32) :
    ∃ c', BootKeeps (InRange (c.esp - 4) 4) c c' ∧
      checkCpuid env c = if env.idWritable then .ok c' else .error (.halted (bootError 0x31 c')) := by
  have hflip : (c.eflags ^^^ 1 <<< 21).testBit 21 = !c.eflags.testBit 21 := by
    rw [Nat.testBit_xor]
    exact Bool.xor_true _
  have hback : c.eflags ^^^ 1 <<< 21 ^^^ 1 <<< 21 = c.eflags := by rw [Nat.xor_assoc, Nat.xor_self, Nat.xor_zero]
  have hflt : c.eflags ^^^ 1 <<< 21 < 2 ^ 32 := Nat.xor_lt_two_pow hflags (by decide)
  have hne : c.eflags ^^^ 1 <<< 21 ≠ c.eflags := fun heq => by
    rw [heq] at hflip
    cases hb : c.eflags.testBit 21 <;> rw [hb] at hflip <;> cases hflip
  -- the flags that the second `pushfd` reads
  have hread : (if env.idWritable = true ∨ (c.eflags ^^^ 1 <<< 21).testBit 21 = c.eflags.testBit 21 then
      c.eflags ^^^ 1 <<< 21 else c.eflags ^^^ 1 <<< 21 ^^^ 1 <<< 21) =
      if env.idWritable then c.eflags ^^^ 1 <<< 21 else c.eflags := by
    rw [hflip, hback]
    cases c.eflags.testBit 21 <;> simp
  let g := if env.idWritable then c.eflags ^^^ 1 <<< 21 else c.eflags
  have hg : g < 2 ^ 32 := by
    show (if env.idWritable then c.eflags ^^^ 1 <<< 21 else c.eflags) < 2 ^ 32
    split
    · exact hflt
    · exact hflags
  let c₁ := { c with eax := c.eflags ^^^ 1 <<< 21, ecx := c.eflags, mem := (c.pushed c.eflags).mem }
  let c₂ := { c₁ with mem := (c₁.pushed c₁.eax).mem, eflags := g }
  let c₃ := { c₂ with mem := (c₂.pushed g).mem, eax := g }
  let c₄ := { c₃ with mem := (c₃.pushed c.eflags).mem, eflags := c.eflags }
  have h₁ := BootCpu.push_off h hesp hlt c.eflags
  have h₂ := pop_after_push h hesp hlt hflags
  have h₃ := BootCpu.push_off (c := c₁) h hesp hlt c₁.eax
  have h₄ : env.popfd (c₁.pushed c₁.eax) = .ok c₂ :=
    (popfd_after_push (c := c₁) h hesp hlt hflt).trans (by rw [hread])
  have h₅ := BootCpu.push_off (c := c₂) h hesp hlt g
  have h₆ := pop_after_push (c := c₂) h hesp hlt hg
  have h₇ := BootCpu.push_off (c := c₃) h hesp hlt c.eflags
  have hrestore : (if env.idWritable = true ∨ c.eflags.testBit 21 = g.testBit 21 then c.eflags
      else c.eflags ^^^ 1 <<< 21) = c.eflags := by
    show (if env.idWritable = true ∨ c.eflags.testBit 21 =
      (if env.idWritable then c.eflags ^^^ 1 <<< 21 else c.eflags).testBit 21 then _ else _) = _
    cases env.idWritable <;> simp
  have h₈ : env.popfd (c₃.pushed c.eflags) = .ok c₄ :=
    (popfd_after_push (c := c₃) h hesp hlt hflags).trans (by rw [hrestore])
  refine ⟨c₄, ⟨rfl, rfl, ⟨rfl, rfl, rfl⟩, fun b hb => ?_⟩, ?_⟩
  · exact ((storeLE_apply_of_not_mem hb).trans (storeLE_apply_of_not_mem hb)).trans
      ((storeLE_apply_of_not_mem hb).trans (storeLE_apply_of_not_mem hb))
  · rw [checkCpuid, h₁, Except.ok_bind, h₂, Except.ok_bind]
    show (c₁.push c₁.eax >>= fun c => env.popfd c >>= fun c => c.push c.eflags >>= _) = _
    rw [h₃, Except.ok_bind, h₄, Except.ok_bind]
    show (c₂.push g >>= fun c => c.pop >>= _) = _
    rw [h₅, Except.ok_bind, h₆, Except.ok_bind]
    show (c₃.push c.eflags >>= fun c => env.popfd c >>= _) = _
    rw [h₇, Except.ok_bind, h₈, Except.ok_bind]
    show (if g = c.eflags then _ else _) = _
    show (if (if env.idWritable then c.eflags ^^^ 1 <<< 21 else c.eflags) = c.eflags then _ else _) = _
    cases env.idWritable
    · exact if_pos rfl
    · exact if_neg hne

/-- The processor has 64-bit mode, by what `cpuid` says. -/
def BootEnv.HasLongMode (env : BootEnv) : Prop :=
  0x80000001 ≤ (env.cpuid 0x80000000).1 ∧ (env.cpuid 0x80000001).2.2.2 &&& 1 <<< 29 ≠ 0

instance (env : BootEnv) : Decidable env.HasLongMode := inferInstanceAs (Decidable (_ ∧ _))

/-- `check_long_mode` changes registers only. -/
theorem checkLongMode_spec (env : BootEnv) (c : BootCpu) : ∃ c', BootKeeps (fun _ => False) c c' ∧
    checkLongMode env c = if env.HasLongMode then .ok c' else .error (.halted (bootError 0x32 c')) := by
  refine ⟨env.doCpuid { env.doCpuid { c with eax := 0x80000000 } with eax := 0x80000001 },
    ⟨rfl, rfl, ⟨rfl, rfl, rfl⟩, fun _ _ => rfl⟩, ?_⟩
  show (if (env.cpuid 0x80000000).1 < 0x80000001 then _ else
    if (env.cpuid 0x80000001).2.2.2 &&& 1 <<< 29 = 0 then _ else _) = _
  rcases Nat.lt_or_ge (env.cpuid 0x80000000).1 0x80000001 with hlt | hge
  · rw [if_pos hlt, if_neg fun h => absurd h.1 (Nat.not_le.2 hlt)]
    rfl
  · rw [if_neg (Nat.not_lt.2 hge)]
    split
    case isTrue hbit => rw [if_neg fun h => h.2 hbit]
    case isFalse hbit => rw [if_pos ⟨hge, hbit⟩]

/-! ## The tables -/

/-- The tables as `set_up_page_tables` leaves them, as far as the first `n` large pages go. -/
structure BootTables (env : BootEnv) (n : Nat) (m : Mem) : Prop where
  p4 : ∀ i < 512, load64 m (env.p4Table + 8 * i) = if i = 0 then env.p3Table + 3 else 0
  p3 : ∀ i < 512, load64 m (env.p3Table + 8 * i) = if i = 0 then env.p2Table + 3 else 0
  p2 : ∀ i < n, load64 m (env.p2Table + 8 * i) = 0x200000 * i + 0x83

/-- Where the linker puts the data of `boot.asm`: the tables and above them the stack of 64 bytes, apart from the other
data, all in the first gibibyte. -/
structure BootLayout (env : BootEnv) : Prop where
  aligned : env.p4Table % 4096 = 0
  p3 : env.p3Table = env.p4Table + 4096
  p2 : env.p2Table = env.p3Table + 4096
  stack : env.stackTop = env.p2Table + 4096 + 64
  low : env.stackTop < 2 ^ 30
  gdt : env.gdt64 + 16 < 2 ^ 30 ∧ env.gdtPointer + 6 < 2 ^ 30 ∧ env.multibootTagAddr + 8 < 2 ^ 30
  gdtApart : env.gdt64 + 16 ≤ env.p4Table ∨ env.stackTop ≤ env.gdt64
  pointerApart : env.gdtPointer + 6 ≤ env.p4Table ∨ env.stackTop ≤ env.gdtPointer
  tagApart : env.multibootTagAddr + 8 ≤ env.p4Table ∨ env.stackTop ≤ env.multibootTagAddr
  tagGdt : env.multibootTagAddr + 8 ≤ env.gdt64 ∨ env.gdt64 + 16 ≤ env.multibootTagAddr
  tagPointer : env.multibootTagAddr + 8 ≤ env.gdtPointer ∨ env.gdtPointer + 6 ≤ env.multibootTagAddr
  returnTo : ∀ f, env.returnTo f < 2 ^ 32

/-- One turn of the loop. -/
theorem mapP2Table_turn (L : BootLayout env) (h : c.cr0.testBit 31 = false) (hecx : c.ecx < 512) (fuel : Nat) :
    mapP2Table env (fuel + 1) c =
      let c₁ := { c with
        eax := 0x200000 * c.ecx + 0x83
        edx := 0
        mem := storeLE c.mem (env.p2Table + 8 * c.ecx) 4 (0x200000 * c.ecx + 0x83)
        ecx := c.ecx + 1 }
      if c₁.ecx ≠ 512 then mapP2Table env fuel c₁ else .ok c₁ := by
  have hprod : 0x200000 * c.ecx % 2 ^ 32 = 0x200000 * c.ecx := Nat.mod_eq_of_lt (by omega)
  have hhigh : 0x200000 * c.ecx / 2 ^ 32 = 0 := Nat.div_eq_of_lt (by omega)
  have hor : 0x200000 * c.ecx ||| 0b10000011 = 0x200000 * c.ecx + 0x83 :=
    (Nat.two_pow_add_eq_or_of_lt (i := 21) (by decide) c.ecx).symm
  have haddr : (env.p2Table + c.ecx * 8) % 2 ^ 32 = env.p2Table + 8 * c.ecx := by
    have hstack := L.stack
    have hlow := L.low
    omega
  have hnext : (c.ecx + 1) % 2 ^ 32 = c.ecx + 1 := Nat.mod_eq_of_lt (by omega)
  rw [mapP2Table]
  dsimp only
  rw [hprod, hhigh, hor, haddr, BootCpu.store_off (c := { c with eax := 0x200000 * c.ecx + 0x83, edx := 0 }) h,
    Except.ok_bind]
  dsimp only
  rw [hnext]

/-- The loop from entry `512 - r` on. -/
theorem mapP2Table_spec (L : BootLayout env) : ∀ r c fuel, c.cr0.testBit 31 = false → c.ecx + r = 512 → 0 < r → r ≤ fuel →
    ∃ c', mapP2Table env fuel c = .ok c' ∧
      BootKeeps (fun b => ∃ i, c.ecx ≤ i ∧ i < 512 ∧ InRange (env.p2Table + 8 * i) 4 b) c c' ∧
      ∀ i, c.ecx ≤ i → i < 512 → loadLE c'.mem (env.p2Table + 8 * i) 4 = 0x200000 * i + 0x83 := by
  intro r
  induction r with
  | zero => exact fun _ _ _ _ h => absurd h (Nat.lt_irrefl 0)
  | succ r ih =>
    intro c fuel h hecx _ hfuel
    rcases Nat.exists_eq_add_of_lt hfuel with ⟨k, rfl⟩
    rw [show r + k + 1 = r + k + 1 from rfl, mapP2Table_turn L h (by omega)]
    let c₁ : BootCpu := { c with
      eax := 0x200000 * c.ecx + 0x83
      edx := 0
      mem := storeLE c.mem (env.p2Table + 8 * c.ecx) 4 (0x200000 * c.ecx + 0x83)
      ecx := c.ecx + 1 }
    have hself : loadLE c₁.mem (env.p2Table + 8 * c.ecx) 4 = 0x200000 * c.ecx + 0x83 :=
      (loadLE_storeLE_self _ _ 4 _).trans (Nat.mod_eq_of_lt (by omega))
    show ∃ c', (if c₁.ecx ≠ 512 then mapP2Table env (r + k) c₁ else .ok c₁) = .ok c' ∧ _
    rcases Nat.eq_zero_or_pos r with rfl | hr
    · rw [if_neg (not_not.2 hecx)]
      refine ⟨c₁, rfl, ⟨rfl, rfl, ⟨rfl, rfl, rfl⟩, fun b hb => ?_⟩, fun i hle hi => ?_⟩
      · exact storeLE_apply_of_not_mem fun hin => hb ⟨c.ecx, Nat.le_refl _, by omega, hin⟩
      · obtain rfl : i = c.ecx := by omega
        exact hself
    · have hne : c₁.ecx ≠ 512 := by
        show c.ecx + 1 ≠ 512
        omega
      have hecx₁ : c₁.ecx + r = 512 := by
        show c.ecx + 1 + r = 512
        omega
      rcases ih c₁ (r + k) h hecx₁ hr (Nat.le_add_right r k) with ⟨c', hc', hkeep, hentry⟩
      rw [if_pos hne]
      refine ⟨c', hc', ⟨hkeep.esp, hkeep.eflags, hkeep.control, fun b hb => ?_⟩, fun i hle hi => ?_⟩
      · refine (hkeep.mem b fun ⟨i, hle, hi, hin⟩ => hb ⟨i, Nat.le_of_succ_le hle, hi, hin⟩).trans ?_
        exact storeLE_apply_of_not_mem fun hin => hb ⟨c.ecx, Nat.le_refl _, by omega, hin⟩
      · rcases Nat.eq_or_lt_of_le hle with rfl | hlt
        · refine (loadLE_congr fun b hb => hkeep.mem b ?_).trans hself
          rintro ⟨i, hle', -, hin⟩
          have hle' : c.ecx + 1 ≤ i := hle'
          have h₁ := hb.1
          have h₂ := hb.2
          have h₃ := hin.1
          omega
        · exact hentry i hlt hi

/-- Zero bytes. -/
theorem loadLE_eq_zero {m : Mem} {a n : Nat} (h : ∀ b, InRange a n b → m b = 0) : loadLE m a n = 0 :=
  (loadLE_congr h).trans (loadLE_zero n a)

/-- A word with a zero upper half. -/
theorem load64_of_low {m : Mem} {a v : Nat} (hlow : loadLE m a 4 = v) (hhigh : ∀ b, InRange (a + 4) 4 b → m b = 0) :
    load64 m a = v := by
  have hhalves : loadLE m a (4 + 4) = loadLE m a 4 + 256 ^ 4 * loadLE m (a + 4) 4 := loadLE_add m 4
  rw [load64, hhalves, hlow, loadLE_eq_zero hhigh, Nat.mul_zero, Nat.add_zero]

/-- A table that is clear but for the lower half of its first entry. -/
theorem load64_table {m : Mem} {a v : Nat} (hlow : loadLE m a 4 = v) (hclear : ∀ b, InRange (a + 4) 4092 b → m b = 0)
    {i : Nat} (hi : i < 512) : load64 m (a + 8 * i) = if i = 0 then v else 0 := by
  split
  case isTrue heq =>
    rw [heq]
    exact load64_of_low hlow fun b hb => hclear b (hb.mono (Nat.le_refl _) (by omega))
  case isFalse hne =>
    exact load64_of_low (loadLE_eq_zero fun b hb => hclear b (hb.mono (by omega) (by omega)))
      fun b hb => hclear b (hb.mono (by omega) (by omega))

/-- A table address with the flags for a table. -/
theorem or_three {a : Nat} (h : a % 4096 = 0) : a ||| 0b11 = a + 3 := by
  have hor := Nat.two_pow_add_eq_or_of_lt (i := 12) (b := 3) (by decide) (a / 4096)
  have ha : 2 ^ 12 * (a / 4096) = a := by omega
  rw [ha] at hor
  exact hor.symm

/-- `set_up_page_tables` in cleared memory. -/
theorem setUpPageTables_spec (L : BootLayout env) (h : c.cr0.testBit 31 = false)
    (hzero : ∀ b, InRange env.p4Table 12288 b → c.mem b = 0) {fuel : Nat} (hfuel : 512 ≤ fuel) :
    ∃ c', setUpPageTables env fuel c = .ok c' ∧ BootKeeps (InRange env.p4Table 12288) c c' ∧ BootTables env 512 c'.mem := by
  have hal := L.aligned
  have hp3 := L.p3
  have hp2 := L.p2
  have hstack := L.stack
  have hlow := L.low
  let c₁ : BootCpu := { c with eax := env.p3Table + 3, mem := storeLE c.mem env.p4Table 4 (env.p3Table + 3) }
  let c₂ : BootCpu := { c₁ with eax := env.p2Table + 3, mem := storeLE c₁.mem env.p3Table 4 (env.p2Table + 3) }
  rcases mapP2Table_spec L 512 { c₂ with ecx := 0 } fuel h rfl (by decide) hfuel with ⟨c', hc', hkeep, hentry⟩
  have hrun : setUpPageTables env fuel c = .ok c' := by
    rw [setUpPageTables]
    dsimp only
    rw [or_three (by omega), or_three (by omega), BootCpu.store_off (c := { c with eax := env.p3Table + 3 }) h,
      Except.ok_bind]
    dsimp only
    rw [BootCpu.store_off (c := { c₁ with eax := env.p2Table + 3 }) h, Except.ok_bind]
    exact hc'
  -- the tables outside of the words that are written
  have hrest (b : Nat) (hb : InRange env.p4Table 12288 b) (h₄ : env.p4Table + 4 ≤ b)
      (h₃ : b < env.p3Table ∨ env.p3Table + 4 ≤ b) (h₂ : b < env.p2Table ∨ 4 ≤ (b - env.p2Table) % 8) : c'.mem b = 0 := by
    have hmapped : c'.mem b = c₂.mem b := by
      refine hkeep.mem b ?_
      rintro ⟨i, -, -, hin⟩
      have hlo := hin.1
      have hhi := hin.2
      omega
    have hpoint₃ : ¬ InRange env.p3Table 4 b := fun hin => by
      have hlo := hin.1
      have hhi := hin.2
      omega
    have hpoint₄ : ¬ InRange env.p4Table 4 b := fun hin => by
      have hhi := hin.2
      omega
    exact hmapped.trans ((storeLE_apply_of_not_mem hpoint₃).trans ((storeLE_apply_of_not_mem hpoint₄).trans (hzero b hb)))
  have hbelow (b : Nat) (hb : b < env.p2Table) : c'.mem b = c₂.mem b := by
    refine hkeep.mem b ?_
    rintro ⟨i, -, -, hin⟩
    have hle := hin.1
    omega
  have hword₄ : loadLE c'.mem env.p4Table 4 = env.p3Table + 3 := by
    have hsame : loadLE c'.mem env.p4Table 4 = loadLE c₁.mem env.p4Table 4 := loadLE_congr fun b hb => by
      have hlt := hb.2
      exact (hbelow b (by omega)).trans (storeLE_apply_of_not_mem fun hin => by have hle := hin.1; omega)
    exact hsame.trans ((loadLE_storeLE_self _ _ 4 _).trans (Nat.mod_eq_of_lt (by omega)))
  have hword₃ : loadLE c'.mem env.p3Table 4 = env.p2Table + 3 := by
    have hsame : loadLE c'.mem env.p3Table 4 = loadLE c₂.mem env.p3Table 4 := loadLE_congr fun b hb =>
      hbelow b (by have hlt := hb.2; omega)
    exact hsame.trans ((loadLE_storeLE_self _ _ 4 _).trans (Nat.mod_eq_of_lt (by omega)))
  refine ⟨c', hrun, ⟨hkeep.esp, hkeep.eflags, hkeep.control, fun b hb => ?_⟩, fun i hi => ?_, fun i hi => ?_, fun i hi => ?_⟩
  · have hout : ∀ a, InRange a 4 b → env.p4Table ≤ a → a + 4 ≤ env.p4Table + 12288 → False := fun a hin h₁ h₂ =>
      hb (hin.mono h₁ h₂)
    refine (hkeep.mem b fun ⟨i, _, hi, hin⟩ => hout _ hin (by omega) (by omega)).trans ?_
    exact (storeLE_apply_of_not_mem fun hin => hout _ hin (by omega) (by omega)).trans
      (storeLE_apply_of_not_mem fun hin => hout _ hin (by omega) (by omega))
  · refine load64_table hword₄ (fun b hb => ?_) hi
    have hlo := hb.1
    have hhi := hb.2
    exact hrest b ⟨by omega, by omega⟩ (by omega) (by omega) (by omega)
  · refine load64_table hword₃ (fun b hb => ?_) hi
    have hlo := hb.1
    have hhi := hb.2
    exact hrest b ⟨by omega, by omega⟩ (by omega) (by omega) (by omega)
  · refine load64_of_low (hentry i (Nat.zero_le i) hi) fun b hb => ?_
    have hlo := hb.1
    have hhi := hb.2
    exact hrest b ⟨by omega, by omega⟩ (by omega) (by omega) (by omega)

/-! ## The map -/

/-- What `cr3` points to. -/
theorem BootLayout.root (L : BootLayout env) : 4096 * field env.p4Table 12 40 = env.p4Table := by
  have hal := L.aligned
  have hp3 := L.p3
  have hp2 := L.p2
  have hstack := L.stack
  have hlow := L.low
  unfold field
  omega

/-- An address of the first gibibyte is translated by its entry in the third table. -/
theorem BootTables.translate_eq (L : BootLayout env) {n : Nat} {m : Mem} (h : BootTables env n m) {v : Nat} (hv : v < 2 ^ 30) :
    translateAddr m env.p4Table v = walkFrom m v 1 env.p2Table := by
  have hal := L.aligned
  have hp3 := L.p3
  have hp2 := L.p2
  have hstack := L.stack
  have hlow := L.low
  have hindex (l : Nat) (hl : 2 ≤ l) (hl' : l ≤ 3) : field v (levelShift l) 9 = 0 := by
    unfold field levelShift
    rcases (by omega : l = 2 ∨ l = 3) with rfl | rfl
    all_goals simp only [Nat.reduceMul, Nat.reduceAdd, Nat.reducePow]; omega
  have he₄ : entryFor m v 3 env.p4Table = env.p3Table + 3 := by
    rw [entryFor, hindex 3 (by decide) (by decide), h.p4 0 (by decide), if_pos rfl]
  have he₃ : entryFor m v 2 env.p3Table = env.p2Table + 3 := by
    rw [entryFor, hindex 2 (by decide) (by decide), h.p3 0 (by decide), if_pos rfl]
  rw [translateAddr, if_pos (.inl (by omega)), L.root, walkFrom_entry (by omega) (by omega) he₄,
    walkFrom_entry (by omega) (by omega) he₃]

/-- The large pages that are there are mapped to themselves. -/
theorem BootTables.translate_low (L : BootLayout env) {n : Nat} {m : Mem} (h : BootTables env n m) (hn : n ≤ 512) {v : Nat}
    (hv : v < n * 2 ^ 21) : translateAddr m env.p4Table v = some ⟨v, true⟩ := by
  have hi : v / 2 ^ 21 < n := (Nat.div_lt_iff_lt_mul (by decide)).2 hv
  have hentry : entryFor m v 1 env.p2Table = 0x200000 * (v / 2 ^ 21) + 0x83 := by
    have hindex : field v (levelShift 1) 9 = v / 2 ^ 21 := Nat.mod_eq_of_lt (show v / 2 ^ 21 < 2 ^ 9 by omega)
    rw [entryFor, hindex, h.p2 _ hi]
  have hlarge : EntryPresent (0x200000 * (v / 2 ^ 21) + 0x83) ∧ field (0x200000 * (v / 2 ^ 21) + 0x83) 7 1 = 1 ∧
      field (0x200000 * (v / 2 ^ 21) + 0x83) 1 1 = 1 ∧
      2 ^ 21 * field (0x200000 * (v / 2 ^ 21) + 0x83) 21 31 + field v 0 21 = v := by
    unfold EntryPresent field
    omega
  rcases hlarge with ⟨hp, hs, hw, hphys⟩
  rw [h.translate_eq L (by omega), walkFrom_large (by rwa [hentry]) (by rwa [hentry]) (by decide), hentry, mapPage, hw]
  exact congrArg (fun p => some (⟨p, true⟩ : Mapping)) hphys

/-- Beyond the first gibibyte nothing is mapped. -/
theorem BootTables.translate_high (L : BootLayout env) {n : Nat} {m : Mem} (h : BootTables env n m) {v : Nat} (hv : 2 ^ 30 ≤ v) :
    translateAddr m env.p4Table v = none := by
  have hal := L.aligned
  have hp3 := L.p3
  have hp2 := L.p2
  have hstack := L.stack
  have hlow := L.low
  have habsent : ¬ EntryPresent 0 := fun h => absurd h.1 (by decide)
  unfold translateAddr
  split
  case isFalse => rfl
  case isTrue hc =>
    rw [L.root]
    have hlt₄ : field v (levelShift 3) 9 < 512 := field_lt _ _ 9
    have hlt₃ : field v (levelShift 2) 9 < 512 := field_lt _ _ 9
    rcases Nat.eq_zero_or_pos (field v (levelShift 3) 9) with hzero | hpos
    · have he₄ : entryFor m v 3 env.p4Table = env.p3Table + 3 := by
        rw [entryFor, hzero, h.p4 0 (by decide), if_pos rfl]
      have hne : field v (levelShift 2) 9 ≠ 0 := by
        unfold CanonicalAddr at hc
        unfold field levelShift at hzero ⊢
        omega
      rw [walkFrom_entry (by omega) (by omega) he₄]
      refine walkFrom_absent ?_
      rw [entryFor, h.p3 _ hlt₃, if_neg hne]
      exact habsent
    · refine walkFrom_absent ?_
      rw [entryFor, h.p4 _ hlt₄, if_neg (Nat.ne_of_gt hpos)]
      exact habsent

/-- The tables stay where their bytes do, as far as the first `n` large pages go. -/
theorem BootTables.congr (L : BootLayout env) {n : Nat} {m m' : Mem} (h : BootTables env 512 m) (hn : n ≤ 512)
    (hsame : ∀ b, InRange env.p4Table (8192 + 8 * n) b → m' b = m b) : BootTables env n m' := by
  have hp3 := L.p3
  have hp2 := L.p2
  have hword (a : Nat) (hle : env.p4Table ≤ a) (hlt : a + 8 ≤ env.p4Table + (8192 + 8 * n)) : load64 m' a = load64 m a :=
    load64_congr fun b hb => hsame b (hb.mono hle hlt)
  refine ⟨fun i hi => ?_, fun i hi => ?_, fun i hi => ?_⟩
  · rw [hword _ (by omega) (by omega), h.p4 i hi]
  · rw [hword _ (by omega) (by omega), h.p3 i hi]
  · rw [hword _ (by omega) (by omega), h.p2 i (by omega)]

/-- With paging on, the memory of the first gibibyte is accessed as before. -/
theorem BootCpu.phys_boot (L : BootLayout env) (hon : c.cr0.testBit 31 = true) (hcr3 : c.cr3 = env.p4Table)
    (h : BootTables env 512 c.mem) {a n : Nat} (ha : a + n ≤ 2 ^ 30) (hn : 0 < n) : c.phys a n = .ok a := by
  have hat (b : Nat) (hb : b < 2 ^ 30) : c.at? b = some b := by
    rw [at?, if_pos hon, hcr3, h.translate_low L (Nat.le_refl _) hb]
    rfl
  rw [phys, hat a (by omega)]
  exact if_pos fun i hi => hat _ (by omega)

/-! ## The whole of it -/

theorem BootKeeps.trans {R : Nat → Prop} {c'' : BootCpu} (h : BootKeeps R c c') (h' : BootKeeps R c' c'') :
    BootKeeps R c c'' where
  esp := h'.esp.trans h.esp
  eflags := h'.eflags.trans h.eflags
  control := ⟨h'.control.1.trans h.control.1, h'.control.2.1.trans h.control.2.1, h'.control.2.2.trans h.control.2.2⟩
  mem b hb := (h'.mem b hb).trans (h.mem b hb)

theorem BootKeeps.mono {R R' : Nat → Prop} (h : BootKeeps R c c') (hR : ∀ b, R b → R' b) : BootKeeps R' c c' :=
  ⟨h.esp, h.eflags, h.control, fun b hb => h.mem b fun hr => hb (hR b hr)⟩

/-- A routine that keeps the word with its return address returns. -/
theorem BootEnv.call_keeps (L : BootLayout env) (h : c.cr0.testBit 31 = false) (hesp : 4 ≤ c.esp) (hlt : c.esp < 2 ^ 32)
    {f : BootCall} {body : BootCpu → Except BootStop BootCpu} {R : Nat → Prop}
    (hbody : body (c.pushed (env.returnTo f)) = .ok c') (hkeep : BootKeeps R (c.pushed (env.returnTo f)) c')
    (hR : ∀ b, InRange (c.esp - 4) 4 b → ¬ R b) :
    env.call f body c = .ok { c' with esp := c.esp } ∧
      BootKeeps (fun b => R b ∨ InRange (c.esp - 4) 4 b) c { c' with esp := c.esp } := by
  have hoff : c'.cr0.testBit 31 = false := by
    rw [hkeep.control.1]
    exact h
  have hword : loadLE c'.mem (c.esp - 4) 4 = env.returnTo f :=
    (loadLE_congr fun b hb => hkeep.mem b (hR b hb)).trans (loadLE_pushed (L.returnTo f))
  refine ⟨call_ok h hesp hlt hbody (BootCpu.phys_off hoff _ _) hkeep.esp hword, rfl, hkeep.eflags, hkeep.control, ?_⟩
  intro b hb
  rw [not_or] at hb
  exact (hkeep.mem b hb.1).trans (storeLE_apply_of_not_mem hb.2)

/-- The descriptor of the code segment of `gdt64`. -/
def gdt64Code : Nat := 1 <<< 43 ||| 1 <<< 44 ||| 1 <<< 47 ||| 1 <<< 53

/-- What the boot loader puts into memory: the tables are clear, and `gdt64` and the space for the tag address are as the
file has them. -/
structure BootImage (env : BootEnv) (m : Mem) : Prop where
  bss : ∀ b, InRange env.p4Table 12288 b → m b = 0
  pointer : loadLE m env.gdtPointer 2 = 15 ∧ loadLE m (env.gdtPointer + 2) 4 = env.gdt64
  code : load64 m (env.gdt64 + 8) = gdt64Code
  tag : ∀ b, InRange (env.multibootTagAddr + 4) 4 b → m b = 0

/-- The code of the first check that fails. -/
def bootCheck (env : BootEnv) (c : BootCpu) : Option UInt8 :=
  if c.eax ≠ 0x36d76289 then some 0x30
  else if ¬ env.idWritable then some 0x31
  else if ¬ env.HasLongMode then some 0x32
  else none

/-- The first `n` characters on the screen. -/
def screenText (m : Mem) (n : Nat) : List UInt8 := (List.range n).map fun i => m (0xb8000 + 2 * i)

/-- The code is on the screen, after `ERR: `. -/
def BootStop.Shows (code : UInt8) : BootStop → Prop
  | .halted m => screenText m 6 = [0x45, 0x52, 0x52, 0x3a, 0x20, code]
  | _ => False

/-- `error` shows its code. -/
theorem shows_bootError (al : Nat) (c : BootCpu) : BootStop.Shows (UInt8.ofNat al) (.halted (bootError al c)) := by
  have hcode : bootError al c 0xb800a = UInt8.ofNat (al / 256 ^ 0) := rfl
  rw [Nat.pow_zero, Nat.div_one] at hcode
  exact congrArg (fun code => [0x45, 0x52, 0x52, 0x3a, 0x20, code]) hcode

/-- The state in which `kmain` is called. -/
structure Booted (env : BootEnv) (c : BootCpu) (k : LongMode) : Prop where
  cr3 : k.cr3 = env.p4Table
  tables : BootTables env 512 k.mem
  code : Selects k.gdtr k.cs 8 ∧ IsKernelCode (load64 k.mem (k.gdtr.descriptor k.cs))
  data : k.data = 0
  rsp : k.rsp = env.stackTop - 8
  tag : load64 k.mem env.multibootTagAddr = c.ebx
  rest : ∀ b, ¬ InRange env.p4Table (12288 + 64) b → ¬ InRange env.multibootTagAddr 4 b → k.mem b = c.mem b

/-- A check, which has the four bytes below its return address for itself, is called. -/
theorem BootEnv.call_check (L : BootLayout env) (h : c.cr0.testBit 31 = false) (hesp : c.esp = env.stackTop)
    {f : BootCall} {body : BootCpu → Except BootStop BootCpu} {P : Prop} [Decidable P] {al : Nat}
    (hkeep : BootKeeps (InRange (env.stackTop - 8) 4) (c.pushed (env.returnTo f)) c')
    (hbody : body (c.pushed (env.returnTo f)) = if P then .ok c' else .error (.halted (bootError al c'))) :
    (P ∧ ∃ c'', env.call f body c = .ok c'' ∧ BootKeeps (InRange (env.stackTop - 64) 64) c c'') ∨
      ¬ P ∧ ∃ e, env.call f body c = .error e ∧ e.Shows (UInt8.ofNat al) := by
  have hstack := L.stack
  have hlow := L.low
  rcases Decidable.em P with hP | hP
  · rw [if_pos hP] at hbody
    have hapart (b : Nat) (hb : InRange (c.esp - 4) 4 b) : ¬ InRange (env.stackTop - 8) 4 b :=
      hb.not_of_apart (by omega)
    rcases env.call_keeps L h (by omega) (by omega) hbody hkeep hapart with ⟨hcall, hkeep'⟩
    refine .inl ⟨hP, _, hcall, hkeep'.mono fun b hb => ?_⟩
    rcases hb with hb | hb
    · exact hb.mono (by omega) (by omega)
    · exact hb.mono (by omega) (by omega)
  · rw [if_neg hP] at hbody
    exact .inr ⟨hP, _, env.call_error h (by omega) (by omega) hbody, shows_bootError al c'⟩

/-- The three checks, one after the other. -/
theorem bootChecks_outcome (L : BootLayout env) (h : c.cr0.testBit 31 = false) (hesp : c.esp = env.stackTop)
    (hflags : c.eflags < 2 ^ 32) (rest : BootCpu → Except BootStop LongMode) :
    (∃ code e, bootCheck env c = some code ∧ e.Shows code ∧ (do
      let c ← env.call .checkMultiboot checkMultiboot c
      let c ← env.call .checkCpuid (checkCpuid env) c
      let c ← env.call .checkLongMode (checkLongMode env) c
      rest c) = .error e) ∨
    ∃ c', bootCheck env c = none ∧ BootKeeps (InRange (env.stackTop - 64) 64) c c' ∧ (do
      let c ← env.call .checkMultiboot checkMultiboot c
      let c ← env.call .checkCpuid (checkCpuid env) c
      let c ← env.call .checkLongMode (checkLongMode env) c
      rest c) = rest c' := by
  have hstack := L.stack
  have hlow := L.low
  have hkeep₀ : BootKeeps (InRange (env.stackTop - 8) 4) (c.pushed (env.returnTo .checkMultiboot))
      (c.pushed (env.returnTo .checkMultiboot)) := ⟨rfl, rfl, ⟨rfl, rfl, rfl⟩, fun _ _ => rfl⟩
  have hbody₀ : checkMultiboot (c.pushed (env.returnTo .checkMultiboot)) = if c.eax = 0x36d76289 then
      .ok (c.pushed (env.returnTo .checkMultiboot))
      else .error (.halted (bootError 0x30 (c.pushed (env.returnTo .checkMultiboot)))) := ite_not ..
  unfold bootCheck
  rcases env.call_check L h hesp hkeep₀ hbody₀ with ⟨hmagic, c₁, hcall₁, hkeep₁⟩ | ⟨hmagic, e, hcall₁, hshows⟩
  case inr => exact .inl ⟨_, e, if_pos hmagic, hshows, by rw [hcall₁, Except.error_bind]⟩
  have h₁ : c₁.cr0.testBit 31 = false := by
    rw [hkeep₁.control.1]
    exact h
  have hesp₁ : c₁.esp = env.stackTop := hkeep₁.esp.trans hesp
  have hflags₁ : c₁.eflags < 2 ^ 32 := by
    rw [hkeep₁.eflags]
    exact hflags
  rw [if_neg (not_not.2 hmagic), hcall₁, Except.ok_bind]
  rcases @checkCpuid_spec env (c₁.pushed (env.returnTo .checkCpuid)) h₁
    (show 4 ≤ c₁.esp - 4 by omega) (show c₁.esp - 4 < 2 ^ 32 by omega) hflags₁ with ⟨c₂', hkeep₂', hbody₂⟩
  have hscratch : c₁.esp - 4 - 4 = env.stackTop - 8 := by omega
  rcases env.call_check L h₁ hesp₁ (hscratch ▸ hkeep₂') hbody₂ with ⟨hid, c₂, hcall₂, hkeep₂⟩ | ⟨hid, e, hcall₂, hshows⟩
  case inr => exact .inl ⟨_, e, if_pos hid, hshows, by rw [hcall₂, Except.error_bind]⟩
  have h₂ : c₂.cr0.testBit 31 = false := by
    rw [hkeep₂.control.1]
    exact h₁
  rw [if_neg (not_not.2 hid), hcall₂, Except.ok_bind]
  rcases checkLongMode_spec env (c₂.pushed (env.returnTo .checkLongMode)) with ⟨c₃', hkeep₃', hbody₃⟩
  rcases env.call_check L h₂ (hkeep₂.esp.trans hesp₁) (hkeep₃'.mono fun _ => False.elim) hbody₃ with
    ⟨hlong, c₃, hcall₃, hkeep₃⟩ | ⟨hlong, e, hcall₃, hshows⟩
  case inr => exact .inl ⟨_, e, if_pos hlong, hshows, by rw [hcall₃, Except.error_bind]⟩
  exact .inr ⟨c₃, if_neg (not_not.2 hlong), hkeep₁.trans (hkeep₂.trans hkeep₃), by rw [hcall₃, Except.ok_bind]⟩

/-- The bits that `enable_paging` sets. -/
theorem enablePaging_bits (env : BootEnv) (c : BootCpu) : (enablePaging env c).cr0.testBit 31 = true ∧
    (enablePaging env c).cr4.testBit 5 = true ∧ (enablePaging env c).efer.testBit 8 = true := by
  have hor (v n : Nat) : (v ||| 1 <<< n).testBit n = true := by
    have hbit : (1 <<< n).testBit n = true := by
      rw [Nat.one_shiftLeft]
      exact Nat.testBit_two_pow_self
    rw [Nat.testBit_or, hbit, Bool.or_true]
  refine ⟨hor _ _, hor _ _, ?_⟩
  have hlow : c.efer % 2 ^ 32 ||| 1 <<< 8 < 2 ^ 32 := Nat.or_lt_two_pow (Nat.mod_lt _ (by decide)) (by decide)
  show (c.efer / 2 ^ 32 * 2 ^ 32 + (c.efer % 2 ^ 32 ||| 1 <<< 8)).testBit 8 = true
  rw [Nat.mul_comm, Nat.testBit_two_pow_mul_add _ hlow, if_pos (by decide)]
  exact hor _ _

/-- From the last check to the entry of `kmain`. -/
theorem enterKmain (L : BootLayout env) (h : c.cr0.testBit 31 = false) (hesp : c.esp = env.stackTop)
    (hzero : ∀ b, InRange env.p4Table 12288 b → c.mem b = 0)
    (hpointer : loadLE c.mem env.gdtPointer 2 = 15 ∧ loadLE c.mem (env.gdtPointer + 2) 4 = env.gdt64)
    (hcode : load64 c.mem (env.gdt64 + 8) = gdt64Code) {fuel : Nat} (hfuel : 512 ≤ fuel) : ∃ k, (do
      let c ← env.call .setUpPageTables (setUpPageTables env fuel) c
      let c ← env.call .enablePaging (fun c => .ok (enablePaging env c)) c
      enterLongMode env c) = .ok k ∧ k.cr3 = env.p4Table ∧ BootTables env 512 k.mem ∧
        (Selects k.gdtr k.cs 8 ∧ IsKernelCode (load64 k.mem (k.gdtr.descriptor k.cs))) ∧ k.data = 0 ∧
        k.rsp = env.stackTop - 8 ∧ ∀ b, ¬ InRange env.p4Table (12288 + 64) b → k.mem b = c.mem b := by
  have hp3 := L.p3
  have hp2 := L.p2
  have hstack := L.stack
  have hlow := L.low
  -- the tables are set up
  rcases setUpPageTables_spec L (c := c.pushed (env.returnTo .setUpPageTables)) h (fun b hb => by
    have hlt := hb.2
    exact (storeLE_apply_of_not_mem fun hin => by have hle := hin.1; omega).trans (hzero b hb)) hfuel with
    ⟨c₁', hbody₁, hkeep₁', htables₁⟩
  rcases env.call_keeps L h (by omega) (by omega) hbody₁ hkeep₁' (fun b hb hb' => by
    have h₁ := hb.1
    have h₂ := hb'.2
    omega) with ⟨hcall₁, hkeep₁⟩
  generalize hc₁ : ({ c₁' with esp := c.esp } : BootCpu) = c₁ at hcall₁ hkeep₁
  have htables₁ : BootTables env 512 c₁.mem := hc₁ ▸ htables₁
  have h₁ : c₁.cr0.testBit 31 = false := by
    rw [hkeep₁.control.1]
    exact h
  have hesp₁ : c₁.esp = env.stackTop := hkeep₁.esp.trans hesp
  -- paging is enabled
  rcases enablePaging_bits env (c₁.pushed (env.returnTo .enablePaging)) with ⟨hpg, hpae, hlme⟩
  generalize hc₂ : enablePaging env (c₁.pushed (env.returnTo .enablePaging)) = c₂ at hpg hpae hlme
  have hmem₂ : c₂.mem = (c₁.pushed (env.returnTo .enablePaging)).mem := hc₂ ▸ rfl
  have hcr3 : c₂.cr3 = env.p4Table := hc₂ ▸ rfl
  have htables₂ : BootTables env 512 c₂.mem := htables₁.congr L (Nat.le_refl _) fun b hb => by
    have hlt := hb.2
    rw [hmem₂]
    exact storeLE_apply_of_not_mem fun hin => by have hle := hin.1; omega
  have hcall₂ : env.call .enablePaging (fun c => .ok (enablePaging env c)) c₁ = .ok { c₂ with esp := c₁.esp } :=
    env.call_ok h₁ (by omega) (by omega) (congrArg Except.ok hc₂)
      (BootCpu.phys_boot L hpg hcr3 htables₂ (by omega) (by decide)) (hc₂ ▸ rfl)
      (by rw [hmem₂]; exact loadLE_pushed (L.returnTo _))
  have hout₂ (b : Nat) (hb : ¬ InRange env.p4Table (12288 + 64) b) : c₂.mem b = c.mem b := by
    rw [hmem₂]
    refine (storeLE_apply_of_not_mem fun hin => hb (hin.mono (by omega) (by omega))).trans (hkeep₁.mem b ?_)
    rintro (hin | hin)
    · exact hb (hin.mono (Nat.le_refl _) (by omega))
    · exact hb (hin.mono (by omega) (by omega))
  have hload₂ (a n : Nat) (ha : a + n ≤ env.p4Table ∨ env.stackTop ≤ a) : loadLE c₂.mem a n = loadLE c.mem a n :=
    loadLE_congr fun b hb => hout₂ b (hb.not_of_apart (by omega))
  -- the code segment is loaded, and `kmain` is called
  generalize hc₃ : ({ c₂ with esp := c₁.esp } : BootCpu) = c₃ at hcall₂
  have hmem₃ : c₃.mem = c₂.mem := hc₃ ▸ rfl
  have hphys {a n : Nat} (ha : a + n ≤ 2 ^ 30) (hn : 0 < n) : c₃.phys a n = .ok a :=
    BootCpu.phys_boot L (hc₃ ▸ hpg) (hc₃ ▸ hcr3) (hmem₃ ▸ htables₂) ha hn
  have hload {a n : Nat} (ha : a + n ≤ 2 ^ 30) (hn : 0 < n) : c₃.load a n = .ok (loadLE c₂.mem a n) := by
    rw [BootCpu.load, hphys ha hn, hmem₃]
    rfl
  have hgdt := L.gdt
  have hdesc : (⟨15, env.gdt64⟩ : TableReg).descriptor 0x8 = env.gdt64 + 8 := rfl
  have hpointer₂ : loadLE c₂.mem env.gdtPointer 2 = 15 ∧ loadLE c₂.mem (env.gdtPointer + 2) 4 = env.gdt64 := by
    have happ := L.pointerApart
    rw [hload₂ _ _ (by omega), hload₂ _ _ (by omega)]
    exact hpointer
  have hcode₂ : loadLE c₂.mem (env.gdt64 + 8) 8 = gdt64Code := by
    have happ := L.gdtApart
    rw [hload₂ _ _ (by omega)]
    exact hcode
  have hsegment : Selects ⟨15, env.gdt64⟩ 0x8 8 ∧ IsKernelCode gdt64Code :=
    ⟨⟨by decide, by decide, (by decide : 8 * field 0x8 3 13 + 8 ≤ 15 + 1)⟩, by decide⟩
  have hesp₃ : c₃.esp = env.stackTop := hc₃ ▸ hesp₁
  have hrsp : (c₃.esp + 2 ^ 64 - 8) % 2 ^ 64 = env.stackTop - 8 := by omega
  have hstore : c₃.store (env.stackTop - 8) 8 (env.returnTo .kmain) =
      .ok { c₃ with mem := storeLE c₂.mem (env.stackTop - 8) 8 (env.returnTo .kmain) } := by
    rw [BootCpu.store, hphys (by omega) (by decide), hmem₃]
    rfl
  refine ⟨⟨storeLE c₂.mem (env.stackTop - 8) 8 (env.returnTo .kmain), env.p4Table, ⟨15, env.gdt64⟩, 0x8, 0,
    env.stackTop - 8⟩, ?_, rfl, ?_, ⟨hsegment.1, ?_⟩, rfl, rfl, fun b hb => ?_⟩
  · rw [hcall₁, Except.ok_bind, hcall₂, Except.ok_bind, enterLongMode, hload (by omega) (by decide), Except.ok_bind,
      hload (by omega) (by decide), Except.ok_bind, hpointer₂.1, hpointer₂.2]
    dsimp only
    rw [hdesc, hload (by omega) (by decide), Except.ok_bind, hcode₂,
      if_pos ⟨hc₃ ▸ hpae, hc₃ ▸ hlme, hsegment.1, hsegment.2⟩, hrsp, hstore, Except.ok_bind]
    have hcr3₃ : c₃.cr3 = env.p4Table := hc₃ ▸ hcr3
    rw [hcr3₃]
    rfl
  · refine htables₂.congr L (Nat.le_refl _) fun b hb => storeLE_apply_of_not_mem fun hin => ?_
    have hlt := hb.2
    have hle := hin.1
    omega
  · have happ := L.gdtApart
    have hkeep : load64 (storeLE c₂.mem (env.stackTop - 8) 8 (env.returnTo .kmain)) (env.gdt64 + 8) =
        load64 c₂.mem (env.gdt64 + 8) := load64_congr fun b hb => storeLE_apply_of_not_mem (hb.not_of_apart (by omega))
    rw [hdesc, hkeep]
    show IsKernelCode (loadLE c₂.mem (env.gdt64 + 8) 8)
    rw [hcode₂]
    exact hsegment.2
  · refine (storeLE_apply_of_not_mem fun hin => hb (hin.mono (by omega) (by omega))).trans (hout₂ b hb)

/-- The run of `boot.asm` ends at the first check that fails, or at the entry of `kmain`. -/
theorem start_booted (L : BootLayout env) (hi : BootImage env c.mem) (h : c.cr0.testBit 31 = false)
    (hflags : c.eflags < 2 ^ 32) (hebx : c.ebx < 2 ^ 32) {fuel : Nat} (hfuel : 512 ≤ fuel) :
    (∃ code e, bootCheck env c = some code ∧ start env fuel c = .error e ∧ e.Shows code) ∨
      bootCheck env c = none ∧ ∃ k, start env fuel c = .ok k ∧ Booted env c k := by
  have hp3 := L.p3
  have hp2 := L.p2
  have hstack := L.stack
  have hlow := L.low
  have happ := L.tagApart
  let c₁ : BootCpu := { c with esp := env.stackTop, mem := storeLE c.mem env.multibootTagAddr 4 c.ebx }
  have hstart : start env fuel c = (do
      let c ← env.call .checkMultiboot checkMultiboot c₁
      let c ← env.call .checkCpuid (checkCpuid env) c
      let c ← env.call .checkLongMode (checkLongMode env) c
      let c ← env.call .setUpPageTables (setUpPageTables env fuel) c
      let c ← env.call .enablePaging (fun c => .ok (enablePaging env c)) c
      enterLongMode env c) := by
    rw [start]
    dsimp only
    rw [BootCpu.store_off (c := { c with esp := env.stackTop }) h, Except.ok_bind]
  have hout {b : Nat} (hb : ¬ InRange env.multibootTagAddr 4 b) : c₁.mem b = c.mem b := storeLE_apply_of_not_mem hb
  rcases bootChecks_outcome L (c := c₁) h rfl hflags fun c => do
      let c ← env.call .setUpPageTables (setUpPageTables env fuel) c
      let c ← env.call .enablePaging (fun c => .ok (enablePaging env c)) c
      enterLongMode env c with ⟨code, e, hcheck, hshows, hrun⟩ | ⟨c₂, hcheck, hkeep, hrun⟩
  · exact .inl ⟨code, e, hcheck, hstart.trans hrun, hshows⟩
  · have hsame {b : Nat} (hb : ¬ InRange (env.stackTop - 64) 64 b) (hb' : ¬ InRange env.multibootTagAddr 4 b) :
        c₂.mem b = c.mem b := (hkeep.mem b hb).trans (hout hb')
    have hload {a n : Nat} (ha : a + n ≤ env.p4Table ∨ env.stackTop ≤ a)
        (ha' : env.multibootTagAddr + 8 ≤ a ∨ a + n ≤ env.multibootTagAddr) : loadLE c₂.mem a n = loadLE c.mem a n :=
      loadLE_congr fun b hb => hsame (hb.not_of_apart (by omega)) (hb.not_of_apart (by omega))
    have hoff : c₂.cr0.testBit 31 = false := by
      rw [hkeep.control.1]
      exact h
    have hpointer : loadLE c₂.mem env.gdtPointer 2 = 15 ∧ loadLE c₂.mem (env.gdtPointer + 2) 4 = env.gdt64 := by
      have h₁ := L.pointerApart
      have h₂ := L.tagPointer
      rw [hload (by omega) (by omega), hload (by omega) (by omega)]
      exact hi.pointer
    have hcode : load64 c₂.mem (env.gdt64 + 8) = gdt64Code := by
      have h₁ := L.gdtApart
      have h₂ := L.tagGdt
      rw [load64, hload (by omega) (by omega)]
      exact hi.code
    have hzero (b : Nat) (hb : InRange env.p4Table 12288 b) : c₂.mem b = 0 :=
      (hsame (hb.not_of_apart (by omega)) (hb.not_of_apart (by omega))).trans (hi.bss b hb)
    rcases enterKmain L hoff hkeep.esp hzero hpointer hcode hfuel with
      ⟨k, hk, hcr3, htables, hsegment, hdata, hrsp, hrest⟩
    refine .inr ⟨hcheck, k, hstart.trans (hrun.trans hk), hcr3, htables, hsegment, hdata, hrsp, ?_, fun b hb hb' => ?_⟩
    · have htag {a n : Nat} (ha : env.multibootTagAddr ≤ a) (hn : a + n ≤ env.multibootTagAddr + 8) :
          loadLE k.mem a n = loadLE c₁.mem a n := loadLE_congr fun b hb =>
        (hrest b (hb.not_of_apart (by omega))).trans (hkeep.mem b (hb.not_of_apart (by omega)))
      refine load64_of_low ?_ fun b hb => ?_
      · rw [htag (Nat.le_refl _) (by omega)]
        exact (loadLE_storeLE_self _ _ 4 _).trans (Nat.mod_eq_of_lt hebx)
      · refine (hrest b (hb.not_of_apart (by omega))).trans ((hkeep.mem b (hb.not_of_apart (by omega))).trans ?_)
        exact (hout (hb.not_of_apart (by omega))).trans (hi.tag b hb)
    · exact (hrest b hb).trans (hsame (fun hin => hb (hin.mono (by omega) (by omega))) hb')

/-- From whatever state a boot loader starts `boot.asm` in, without paging: if a check fails then the code of the first
one that does is on the screen; and else `kmain` is called in 64-bit mode, in the code segment of `gdt64` and with the
first gibibyte mapped to itself, writable, and nothing else, and the tag address is stored. -/
theorem start_outcome (L : BootLayout env) (hi : BootImage env c.mem) (h : c.cr0.testBit 31 = false)
    (hflags : c.eflags < 2 ^ 32) (hebx : c.ebx < 2 ^ 32) {fuel : Nat} (hfuel : 512 ≤ fuel) :
    (∃ code e, bootCheck env c = some code ∧ start env fuel c = .error e ∧ e.Shows code) ∨
    bootCheck env c = none ∧ ∃ k, start env fuel c = .ok k ∧ Booted env c k ∧
      ∀ v, translateAddr k.mem k.cr3 v = if v < 2 ^ 30 then some ⟨v, true⟩ else none := by
  refine (start_booted L hi h hflags hebx hfuel).imp_right fun ⟨hcheck, k, hk, hbooted⟩ =>
    ⟨hcheck, k, hk, hbooted, fun v => ?_⟩
  rw [hbooted.cr3]
  split
  case isTrue hv => exact hbooted.tables.translate_low L (Nat.le_refl _) hv
  case isFalse hv => exact hbooted.tables.translate_high L (Nat.not_lt.1 hv)

end

/-- Data from `0x102000` on, and a processor with 64-bit mode. -/
def bootEnvExample : BootEnv where
  cpuid eax := if eax = 0x80000001 then (0, 0, 0, 1 <<< 29) else (0x80000008, 0, 0, 0)
  idWritable := true
  returnTo _ := 0x100100
  p4Table := 0x104000
  p3Table := 0x105000
  p2Table := 0x106000
  stackTop := 0x107040
  gdt64 := 0x102000
  gdtPointer := 0x102010
  multibootTagAddr := 0x103000

/-- Started by a boot loader that left its tags at `0x9000`. -/
def bootCpuExample : BootCpu where
  eax := 0x36d76289
  ebx := 0x9000
  ecx := 0
  edx := 0
  esp := 0
  eflags := 0x46
  cr0 := 0x11
  cr3 := 0
  cr4 := 0
  efer := 0
  mem := storeLE (storeLE (storeLE (fun _ => 0) 0x102010 2 15) 0x102012 4 0x102000) 0x102008 8 gdt64Code

/-- Where the data of the example is. -/
theorem bootLayout_example : BootLayout bootEnvExample where
  aligned := by decide
  p3 := rfl
  p2 := rfl
  stack := rfl
  low := by decide
  gdt := by decide
  gdtApart := by decide
  pointerApart := by decide
  tagApart := by decide
  tagGdt := by decide
  tagPointer := by decide
  returnTo _ := show 0x100100 < 2 ^ 32 by decide

/-- The memory of the example. -/
theorem bootImage_example : BootImage bootEnvExample bootCpuExample.mem := by
  have hzero {b : Nat} (hb : 0x102016 ≤ b) : bootCpuExample.mem b = 0 := by
    refine (storeLE_apply_of_not_mem fun hin => ?_).trans ((storeLE_apply_of_not_mem fun hin => ?_).trans
      (storeLE_apply_of_not_mem fun hin => ?_))
    all_goals have hlt := hin.2; omega
  exact ⟨fun b hb => hzero (Nat.le_trans (by decide) hb.1), ⟨rfl, rfl⟩, rfl,
    fun b hb => hzero (Nat.le_trans (by decide) hb.1)⟩

/-- `kmain` is entered, and the screen is where it was. -/
theorem start_outcome_example : ∃ k, start bootEnvExample 512 bootCpuExample = .ok k ∧ k.rsp = 0x107038 ∧
    translateAddr k.mem k.cr3 0xb8000 = some ⟨0xb8000, true⟩ := by
  rcases start_outcome bootLayout_example bootImage_example (by decide) (by decide) (by decide) (Nat.le_refl 512) with
    ⟨code, e, hcheck, -⟩ | ⟨-, k, hk, hbooted, hmap⟩
  · cases hcheck
  · exact ⟨k, hk, hbooted.rsp, (hmap 0xb8000).trans (if_pos (by decide))⟩

end BanjOS
