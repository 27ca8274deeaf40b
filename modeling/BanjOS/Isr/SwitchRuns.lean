import BanjOS.Isr.Ownership

/-!
# Runs of the interrupt path

One step keeps the invariant of `Ownership` when no interrupt is taken on the way from a thread to the next
one (`SwitchStep.inv`), so in a run of such steps every context points into the stack of its thread
(`ownsContexts`). An interrupt there, between the load of the stack pointer and the store to `cur_proc`, puts a
pointer to the next thread's stack into the context of the thread that has been left.
-/

namespace BanjOS

open X86

/-! ## Instructions between two threads -/

section
variable {E : SwitchEnv} {S : SwitchSystem} {callee : IsrCall → Cpu → Cpu} {calls : List (IsrCall × Cpu)}
  {cpu' : Cpu} {p q : Nat} {t : Kthread}

/-- The positions between two threads. -/
theorem SwitchFact.position (h : SwitchFact S p) : (9 ≤ p ∧ p ≤ 14) ∨ (p = 36 ∨ p = 37 ∨ p = 38) ∨
    (p = 39 ∨ p = 40 ∨ p = 41) ∨ p = 42 ∨ p = 67 ∨ p = 68 := by
  unfold SwitchFact at h
  split at h
  case h_16 => exact h.elim
  all_goals omega

/-- An instruction that leaves the memory, the variables and the stack pointer alone. -/
theorem Between.quiet (h : Between E S p) (hbase : SwitchBase E S) (hrip : cpu'.rip = E.prog.addr q)
    (hmem : cpu'.mem = S.cpu.mem) (hvar : cpu'.var = S.cpu.var) (hrsp : cpu'.reg .rsp = S.cpu.reg .rsp)
    (hfact : SwitchFact { S with cpu := cpu' } q) : SwitchInv E { S with cpu := cpu' } := by
  refine ⟨hbase.keep (fun u _ => by rw [hmem]) (fun u _ => by rw [hmem]) ?_,
    .inr ⟨q, hrip, fun u hu => ?_, fun hcur => ?_, ?_, fun u hu => ?_, hfact⟩⟩
  · rw [hvar]
    exact hbase.next
  · show Saved E cpu'.mem u
    rw [hmem]
    exact h.saved u hu
  · show S.Selects (cpu'.var .nextProc)
    rw [hvar]
    refine h.selected ?_
    rwa [SwitchSystem.curProc, hvar] at hcur
  · show ∃ r ∈ stacksOf E S.threads, r.lo + 8 < (cpu'.reg .rsp).toNat ∧ (cpu'.reg .rsp).toNat ≤ r.hi
    rw [hrsp]
    exact h.room
  · show u.stack.Points (cpu'.reg .rsp) → (cpu'.reg .rsp).toNat ≤ (cpu'.mem u.ctx).toNat
    rw [hrsp, hmem]
    exact h.free u hu

/-- The comparison of `cur_proc` and `next_proc`, when no thread is running. -/
theorem Between.step_compare (h : Between E S p) (hbase : SwitchBase E S) (hp : 9 ≤ p ∧ p ≤ 14)
    (hstep : E.prog.step callee S.cpu = some (calls, cpu')) : SwitchInv E { S with cpu := cpu' } := by
  have hfact := h.fact
  obtain rfl | rfl | rfl | rfl | rfl | rfl : p = 9 ∨ p = 10 ∨ p = 11 ∨ p = 12 ∨ p = 13 ∨ p = 14 := by omega
  · have hcode : isrCode[9]? = some (Instr.op (.loadVar .rax IsrVar.curProc)) := rfl
    rw [eq_goto h.rip, Program.step_op (listing_getElem? hcode)] at hstep
    cases hstep
    exact h.quiet hbase (q := 10) rfl rfl rfl rfl ⟨hfact, hfact⟩
  · have hcode : isrCode[10]? = some (Instr.op (.loadVar .rcx IsrVar.nextProc)) := rfl
    rw [eq_goto h.rip, Program.step_op (listing_getElem? hcode)] at hstep
    cases hstep
    exact h.quiet hbase (q := 11) rfl rfl rfl rfl ⟨hfact.1, hfact.2, rfl⟩
  · have hcode : isrCode[11]? = some (Instr.op (.cmp .rax .rcx)) := rfl
    rw [eq_goto h.rip, Program.step_op (listing_getElem? hcode)] at hstep
    cases hstep
    obtain ⟨hcur, hrax, hrcx⟩ := hfact
    -- a thread that has ended is followed by one that is selected
    obtain ⟨u, -, hnext⟩ := h.selected hcur
    have hne : (0#64 == u.node) = false := beq_false_of_ne u.node_ne.symm
    refine h.quiet hbase (q := 12) rfl rfl rfl rfl ⟨hcur, hrax, ?_⟩
    simp [Op.exec, hrax, hrcx, hnext, hne]
  · have hcode : isrCode[12]? = some (Instr.je IsrLabel.noCtxSwitch) := rfl
    rw [eq_goto h.rip, Program.step_je (listing_getElem? hcode), hfact.2.2] at hstep
    cases hstep
    exact h.quiet hbase (q := 13) rfl rfl rfl rfl ⟨hfact.1, hfact.2.1⟩
  · have hcode : isrCode[13]? = some (Instr.op (.cmpImm .rax 0#64)) := rfl
    rw [eq_goto h.rip, Program.step_op (listing_getElem? hcode)] at hstep
    cases hstep
    refine h.quiet hbase (q := 14) rfl rfl rfl rfl ⟨hfact.1, ?_⟩
    show zf (setZf _ (S.cpu.reg .rax == 0#64)) = true
    rw [zf_setZf, hfact.2]
    rfl
  · have hcode : isrCode[14]? = some (Instr.je IsrLabel.noCurProc) := rfl
    rw [eq_goto h.rip, Program.step_je (listing_getElem? hcode), hfact.2] at hstep
    cases hstep
    exact h.quiet hbase (q := 36) rfl rfl rfl rfl trivial

/-- `next_proc` is loaded and tested. -/
theorem Between.step_test (h : Between E S p) (hbase : SwitchBase E S) (hp : p = 36 ∨ p = 37 ∨ p = 38)
    (hstep : E.prog.step callee S.cpu = some (calls, cpu')) : SwitchInv E { S with cpu := cpu' } := by
  have hfact := h.fact
  obtain rfl | rfl | rfl := hp
  · have hcode : isrCode[36]? = some (Instr.op (.loadVar .rax IsrVar.nextProc)) := rfl
    rw [eq_goto h.rip, Program.step_op (listing_getElem? hcode)] at hstep
    cases hstep
    exact h.quiet hbase (q := 37) rfl rfl rfl rfl rfl
  · have hcode : isrCode[37]? = some (Instr.op (.cmpImm .rax 0#64)) := rfl
    have hrax : S.cpu.reg .rax = S.nextProc := hfact
    rw [eq_goto h.rip, Program.step_op (listing_getElem? hcode)] at hstep
    cases hstep
    refine h.quiet hbase (q := 38) rfl rfl rfl rfl ?_
    show zf (setZf _ (S.cpu.reg .rax == 0#64)) = (S.nextProc == 0#64)
    rw [zf_setZf, hrax]
  · have hcode : isrCode[38]? = some (Instr.je IsrLabel.invalidNextProc) := rfl
    have hzf : zf S.cpu.rflags = (S.nextProc == 0#64) := hfact
    rw [eq_goto h.rip, Program.step_je (listing_getElem? hcode), hzf] at hstep
    cases hstep
    split
    · exact h.quiet hbase (q := 67) rfl rfl rfl rfl trivial
    · next hne =>
      have hnext : S.nextProc ≠ 0#64 := fun hc => hne (beq_iff_eq.2 hc)
      exact h.quiet hbase (q := 39) rfl rfl rfl rfl (hbase.next.resolve_left hnext)

/-- The stack pointer of the selected thread is loaded. -/
theorem Between.step_load (h : Between E S p) (hbase : SwitchBase E S) (hp : p = 39 ∨ p = 40 ∨ p = 41)
    (hstep : E.prog.step callee S.cpu = some (calls, cpu')) : SwitchInv E { S with cpu := cpu' } := by
  have hfact := h.fact
  obtain rfl | rfl | rfl := hp
  · have hcode : isrCode[39]? = some (Instr.op (.loadVar .rax IsrVar.nextProc)) := rfl
    rw [eq_goto h.rip, Program.step_op (listing_getElem? hcode)] at hstep
    cases hstep
    exact h.quiet hbase (q := 40) rfl rfl rfl rfl hfact
  · have hcode : isrCode[40]? = some (Instr.op (.load .rcx .rax 0#64)) := rfl
    obtain ⟨u, hu, hrax⟩ : S.Selects (S.cpu.reg .rax) := hfact
    rw [eq_goto h.rip, Program.step_op (listing_getElem? hcode)] at hstep
    cases hstep
    refine h.quiet hbase (q := 41) rfl rfl rfl rfl ⟨u, hu, hrax, ?_⟩
    simpa [Op.exec, Machine.setReg, hrax] using hbase.node u hu
  · have hcode : isrCode[41]? = some (Instr.op (.load .rsp .rcx 0#64)) := rfl
    obtain ⟨u, hu, hrax, hrcx⟩ := hfact
    rw [eq_goto h.rip, Program.step_op (listing_getElem? hcode)] at hstep
    cases hstep
    have hrsp : ((Op.load (V := IsrVar) .rsp .rcx 0#64).exec S.cpu).reg .rsp = S.cpu.mem u.ctx := by
      simp [Op.exec, Machine.setReg, hrcx]
    -- from here on the stack is the one of the selected thread
    obtain ⟨hlo, -, -⟩ := Saved.inv (h.saved u hu)
    have hhas := Saved.has (h.saved u hu)
    have hstack : u.stack ∈ stacksOf E S.threads := .tail _ (List.mem_map_of_mem hu)
    refine ⟨hbase.keep (fun _ _ => rfl) (fun _ _ => rfl) hbase.next, .inr ⟨42, rfl, h.saved, h.selected,
      ⟨u.stack, hstack, ?_, ?_⟩, fun v hv hp => ?_, u, hu, hrax, hrsp⟩⟩
    · exact hrsp ▸ hlo
    · exact hrsp ▸ hhas.2.le
    · have hp' : v.stack.Points (S.cpu.mem u.ctx) := hrsp ▸ hp
      have hown := hbase.laidOut.points_eq hstack ⟨by omega, hhas.2.le⟩ hv hp'
      have heq : u = v := hbase.laidOut.eq hu hv (.inr (.inr hhas)) (.inr (.inr (hown ▸ hhas)))
      subst heq
      exact (congrArg BitVec.toNat hrsp).le

/-- `cur_proc` is set: the selected thread is running. -/
theorem Between.step_setCur (h : Between E S 42) (hbase : SwitchBase E S)
    (hstep : E.prog.step callee S.cpu = some (calls, cpu')) : SwitchInv E { S with cpu := cpu' } := by
  have hcode : isrCode[42]? = some (Instr.op (.storeVar IsrVar.curProc .rax)) := rfl
  obtain ⟨u, hu, hrax, hrsp⟩ := h.fact
  rw [eq_goto h.rip, Program.step_op (listing_getElem? hcode)] at hstep
  cases hstep
  obtain ⟨hlo, hhi, hframe⟩ := Saved.inv (h.saved u hu)
  have hpath : OnPath E u (E.prog.goto 43 ((Op.storeVar IsrVar.curProc .rax).exec S.cpu)) 43
      (S.cpu.mem u.ctx) :=
    ⟨.inr (by omega), rfl, by simpa [Op.exec, show level 43 = 0 by decide] using hrsp,
      regFact_of_le (.inr (by omega)), hlo, hhi, hframe _⟩
  refine ⟨hbase.keep (fun _ _ => rfl) (fun _ _ => rfl) ?_, .inl ⟨u, hu, ?_, hpath.resumes, fun v hv _ =>
    h.saved v hv⟩⟩
  · simpa [Op.exec] using hbase.next
  · simpa [SwitchSystem.curProc, Op.exec] using hrax

/-- `PROC_resume_source` is called. -/
theorem Between.step_source (h : Between E S 67) (hbase : SwitchBase E S)
    (hstep : E.prog.step callee S.cpu = some (calls, cpu'))
    (hsource : ∀ c, (.procResumeSource, c) ∈ calls → ResumesSource E S.threads c (callee .procResumeSource c)) :
    SwitchInv E { S with cpu := cpu' } := by
  have hcode : isrCode[67]? = some (Instr.call IsrCall.procResumeSource) := rfl
  rw [eq_goto h.rip, Program.step_call (listing_getElem? hcode)] at hstep
  cases hstep
  have hcall := hsource _ (List.mem_singleton_self _)
  generalize hc : (E.prog.goto 67 S.cpu).push (E.prog.addr (67 + 1)) = c at hcall ⊢
  have hcrsp : c.reg .rsp = S.cpu.reg .rsp - 8#64 := by simp [← hc, Machine.push]
  have hret : c.mem (c.reg .rsp) = E.prog.addr 68 := by simp [← hc, Machine.push]
  have hvar : c.var = S.cpu.var := by simp [← hc, Machine.push]
  obtain ⟨r, hr, hlo, hhi⟩ := h.room
  have hlo' : r.lo + 8 < (S.cpu.reg .rsp).toNat := hlo
  have hpoints : r.Points (S.cpu.reg .rsp) := ⟨by omega, hhi⟩
  have hnat : (c.reg .rsp).toNat = (S.cpu.reg .rsp).toNat - 8 := by
    rw [hcrsp]
    bv_omega
  have hstack : ∀ u ∈ S.threads, u.stack.Points (c.reg .rsp) → r = u.stack := fun u hu hp =>
    hbase.laidOut.points_eq hr ⟨by omega, by omega⟩ hu hp
  -- the push and the callee use the free part of the stack
  have hpush : KeepsThreads S.threads (S.cpu.reg .rsp) S.cpu.mem c.mem := by
    refine hbase.laidOut.keepsThreads hr hpoints fun b hb => ?_
    rw [← hc]
    refine Function.update_of_ne (fun hb' => hb ?_) ..
    rw [hb', Program.goto_reg, StackRange.Has, ← hcrsp]
    omega
  have hkeeps := hpush.trans hcall.keeps fun u hu hp => ⟨hstack u hu hp ▸ hpoints, by omega⟩
  have hrsp : (callee .procResumeSource c).reg .rsp = S.cpu.reg .rsp := by
    rw [hcall.conv.rsp, hcrsp, BitVec.sub_add_cancel]
  have hnext : S.Selects ((callee .procResumeSource c).var .nextProc) := ⟨E.source, hbase.source, hcall.nextProc⟩
  refine ⟨hbase.keep hkeeps.node hkeeps.ctx (.inr hnext), .inr ⟨68, hcall.conv.rip.trans hret, fun u hu => ?_,
    fun _ => hnext, ?_, fun u hu hp => ?_, hnext⟩⟩
  · exact (h.saved u hu).keep hkeeps hu (h.free u hu)
  · rw [hrsp]
    exact ⟨r, hr, hlo, hhi⟩
  · rw [hrsp] at hp ⊢
    rw [hkeeps.ctx u hu]
    exact h.free u hu hp

/-- One instruction on the way from a thread to the next one. -/
theorem Between.instr (h : Between E S p) (hbase : SwitchBase E S)
    (hstep : E.prog.step callee S.cpu = some (calls, cpu'))
    (hsource : ∀ c, (.procResumeSource, c) ∈ calls → ResumesSource E S.threads c (callee .procResumeSource c)) :
    SwitchInv E { S with cpu := cpu' } := by
  obtain hp | hp | hp | rfl | rfl | rfl := h.fact.position
  · exact h.step_compare hbase hp hstep
  · exact h.step_test hbase hp hstep
  · exact h.step_load hbase hp hstep
  · exact h.step_setCur hbase hstep
  · exact h.step_source hbase hstep hsource
  · have hcode : isrCode[68]? = some (Instr.jmp IsrLabel.validNextProc) := rfl
    have hsel : S.Selects S.nextProc := h.fact
    rw [eq_goto h.rip, Program.step_jmp (listing_getElem? hcode)] at hstep
    cases hstep
    exact h.quiet hbase (q := 39) rfl rfl rfl rfl hsel

end

/-! ## Steps -/

section
variable {E : SwitchEnv} {S S' : SwitchSystem} {cpu' : Cpu} {t u : Kthread}

/-- Code of a thread is executed when a thread is running. -/
theorem SwitchInv.runs (h : SwitchInv E S) (hnone : E.prog.fetch S.cpu = none) (ht : t ∈ S.threads)
    (hcur : S.curProc = t.node) : Runs E S t := by
  obtain ⟨hbase, ⟨u, hu⟩ | ⟨p, hp⟩⟩ := h
  · have heq : u = t := hbase.laidOut.eq hu.mem ht (.inl rfl) (.inl (hu.cur.symm.trans hcur))
    rwa [← heq]
  · have hlt : p < 69 := by
      have := hp.fact.position
      omega
    rw [fetch_eq hp.rip hlt] at hnone
    have := List.getElem?_eq_none_iff.1 hnone
    exact absurd hlt (by simpa [show isrCode.length = 69 from rfl] using this)

/-- A new thread is saved. -/
theorem Created.saved {mem : Word → Word} (h : Created E u mem) : Saved E mem u := by
  have hlt := h.hi_lt
  rw [h.size] at hlt
  simp only [procStackSize] at hlt
  have hbase : (mem u.ctx).toNat = u.stack.lo + 7992 := by
    rw [h.ctx, BitVec.toNat_ofNat]
    simp only [procStackSize, initialFrameSize]
    omega
  have hrsp : (mem (mem u.ctx + 176#64)).toNat = u.stack.lo + 8184 := by
    rw [h.rsp, BitVec.toNat_ofNat]
    simp only [procStackSize]
    omega
  have hhi := h.size
  simp only [procStackSize] at hhi
  refine .path (p := 43) (.inr (by omega)) rfl (by simp [show level 43 = 0 by decide])
    (regFact_of_le (.inr (by omega))) (by omega) (by omega) (.code h.rip ?_)
  show u.stack.lo < (mem (mem u.ctx + 176#64)).toNat ∧ (mem (mem u.ctx + 176#64)).toNat ≤ u.stack.hi
  omega

/-- Code of the running thread. -/
theorem Runs.thread (h : Runs E S t) (hbase : SwitchBase E S) (hcode : ThreadCode E t S cpu') :
    SwitchInv E { S with cpu := cpu' } :=
  h.keep hbase hcode.keeps hcode.curProc hcode.nextProc (.code hcode.code hcode.rsp)

/-- The running thread creates a thread. -/
theorem Runs.create (h : Runs E S t) (hbase : SwitchBase E S) (hcode : ThreadCode E t S cpu')
    (hfresh : Fresh E S.threads u) (hu : Created E u cpu'.mem) : SwitchInv E ⟨cpu', u :: S.threads⟩ := by
  obtain ⟨hbase', -⟩ := h.thread hbase hcode
  have hall : ∀ v ∈ u :: S.threads, v ≠ t → Saved E cpu'.mem v := by
    rintro v (- | ⟨-, hv⟩) hne
    · exact hu.saved
    · exact (h.saved v hv hne).keepOthers hcode.keeps hv hne
  refine ⟨⟨⟨.cons hfresh.apart hbase.laidOut.apart, ?_⟩, hbase.exRoom, .tail _ hbase.source, ?_, ?_, ?_⟩,
    .inl ⟨t, .tail _ h.mem, hcode.curProc, .code hcode.code hcode.rsp, hall⟩⟩
  · rintro v (- | ⟨-, hv⟩)
    · exact hfresh.ex
    · exact hbase.laidOut.ex v hv
  · rintro v (- | ⟨-, hv⟩)
    · exact hu.node
    · exact hbase'.node v hv
  · exact hbase'.next.imp id fun ⟨v, hv, hnode⟩ => ⟨v, .tail _ hv, hnode⟩
  · rintro v (- | ⟨-, hv⟩)
    · exact .inl (Saved.has hu.saved)
    · exact hbase'.owns v hv

/-- The source calls `PROC_run` again. -/
theorem Runs.procRun (h : Runs E S E.source) (hbase : SwitchBase E S) : SwitchInv E
    { S with cpu := { S.cpu with mem := Function.update S.cpu.mem E.source.ctx 0#64 } } := by
  have hlaid := hbase.laidOut
  have hmem : ∀ b, b ≠ E.source.ctx → Function.update S.cpu.mem E.source.ctx 0#64 b = S.cpu.mem b := fun b hb =>
    Function.update_of_ne hb ..
  refine ⟨⟨hlaid, hbase.exRoom, hbase.source, fun u hu => ?_, hbase.next, fun u hu => ?_⟩,
    .inl ⟨E.source, h.mem, h.cur, ?_, fun u hu hne => (h.saved u hu hne).keepCtx hlaid hu h.mem hne hmem⟩⟩
  · exact (hmem _ (hlaid.node_ne hu h.mem)).trans (hbase.node u hu)
  · by_cases hne : u = E.source
    · exact .inr ⟨hne, by rw [hne]; exact Function.update_self ..⟩
    · have := hbase.owns u hu
      rwa [← hmem _ (hlaid.ctx_ne hu h.mem hne)] at this
  · exact h.resumes.congr fun b _ hb => hmem b fun hc => E.source.ctx_off (hc ▸ hb)

/-- An interrupt that is not taken on the way from a thread to the next one. -/
theorem SwitchInv.interrupt {callee : IsrCall → Cpu → Cpu} {c c' : Cpu} {v : Fin 256} (h : SwitchInv E S)
    (hroom : HasRoom E S) (hsw : ¬ Switching E S) (hist : E.isr.istStack v = none)
    (hv : pushesErrorCode v = false) (henter : EntersHandler E.isr callee S.cpu v 0#64 c)
    (hh : Handles S.threads c c') : SwitchInv E { S with cpu := c' } := by
  obtain ⟨hbase, ⟨t, ht⟩ | ⟨p, hp⟩⟩ := h
  · exact ht.interrupt hbase hroom hist hv henter hh
  · refine hp.interrupt hbase ?_ hroom hist hv henter hh
    by_contra hne
    have hpos : p ∉ switchPositions := fun hc => hsw ⟨hne, p, hc, hp.rip⟩
    simp only [switchPositions, List.mem_cons, List.not_mem_nil, or_false] at hpos
    -- up to there the machine comes from a thread that has ended
    have hfact := hp.fact
    obtain rfl | rfl | rfl | rfl | rfl | rfl : p = 9 ∨ p = 10 ∨ p = 11 ∨ p = 12 ∨ p = 13 ∨ p = 14 := by
      have := hfact.position
      omega
    · exact hne hfact
    all_goals exact hne hfact.1

/-- A step in which no interrupt is taken on the way from a thread to the next one keeps the invariant. -/
theorem SwitchStep.inv (hstep : SwitchStep E (fun S => HasRoom E S ∧ ¬ Switching E S) S S')
    (h : SwitchInv E S) : SwitchInv E S' := by
  cases hstep with
  | instr callee hexec hsource =>
    obtain ⟨hbase, ⟨t, ht⟩ | ⟨p, hp⟩⟩ := h
    · exact ht.instr hbase hexec
    · exact hp.instr hbase hexec hsource
  | iretq hret =>
    obtain ⟨hbase, ⟨t, ht⟩ | ⟨p, hp⟩⟩ := h
    · exact ht.iretq hbase hret
    · have hlt : p < 69 := by
        have := hp.fact.position
        omega
      have hall : ∀ p < 69, isrCode[p]? = some Instr.iretq → p = 66 := by decide
      rw [fetch_eq hp.rip hlt] at hret
      have := hall p hlt hret
      have := hp.fact.position
      omega
  | irq vector callee hmay _ hist hv henter hh => exact h.interrupt hmay.1 hmay.2 hist hv henter hh
  | int80 callee hmay _ henter hh =>
    exact h.interrupt (v := 0x80) hmay.1 hmay.2 (by simp [IsrEnv.istStack]) (by decide) henter hh
  | kexit callee hnone ht hsource hcur henter hh =>
    exact (h.runs hnone ht hcur).exit h.1 hsource henter hh
  | thread hnone ht hcur hcode => exact (h.runs hnone ht hcur).thread h.1 hcode
  | create hnone ht hcur hcode hfresh hu => exact (h.runs hnone ht hcur).create h.1 hcode hfresh hu
  | procRun hnone hcur => exact (h.runs hnone h.1.source hcur).procRun h.1

/-- At the first `PROC_run` the source is running and the other threads are saved. -/
theorem SwitchBoot.inv (h : SwitchBoot E S) : SwitchInv E S := by
  refine ⟨⟨⟨h.apart, h.ex⟩, h.exRoom, h.source, fun u hu => ?_, .inl h.nextProc, fun u hu => ?_⟩,
    .inl ⟨E.source, h.source, h.curProc, .code h.code h.rsp, fun u hu hne => (h.created u hu hne).saved⟩⟩
  · by_cases hne : u = E.source
    · rw [hne]
      exact h.node
    · exact (h.created u hu hne).node
  · by_cases hne : u = E.source
    · exact .inr ⟨hne, by rw [hne]; exact h.ctx⟩
    · exact .inl (Saved.has (h.created u hu hne).saved)

/-- In a run in which no interrupt is taken on the way from a thread to the next one, and in which every
interrupt finds room on the stack, the stack pointer in the context of a thread always points into the
thread's own stack. -/
theorem ownsContexts {S₀ : SwitchSystem} (hboot : SwitchBoot E S₀)
    (hrun : Relation.ReflTransGen (SwitchStep E fun S => HasRoom E S ∧ ¬ Switching E S) S₀ S) :
    OwnsContexts E S := by
  have hinv : SwitchInv E S := by
    induction hrun with
    | refl => exact hboot.inv
    | tail _ hstep ih => exact hstep.inv ih
  exact hinv.1.owns

end

/-! ## A run with an interrupt on the way -/

section
variable {E : SwitchEnv} {S : SwitchSystem} {callee : IsrCall → Cpu → Cpu} {may may' : SwitchSystem → Prop}
  {m : Cpu} {v : Fin 256} {threads : List Kthread}

/-- Instructions without a call. -/
theorem switchStep_run (callee : IsrCall → Cpu → Cpu) (n : Nat) (hcalls : (E.prog.run callee n m).1 = []) :
    Relation.ReflTransGen (SwitchStep E may) ⟨m, threads⟩ ⟨(E.prog.run callee n m).2, threads⟩ := by
  induction n generalizing m with
  | zero => exact .refl
  | succ n ih =>
    simp only [Program.run] at hcalls ⊢
    split at hcalls
    case h_1 => exact .refl
    case h_2 cs m' hstep =>
      obtain ⟨rfl, hcalls'⟩ := List.append_eq_nil_iff.1 hcalls
      exact .head (.instr (S := ⟨m, threads⟩) callee hstep (by simp)) (ih hcalls')

/-- More interrupts can be allowed. -/
theorem SwitchStep.mono {S' : SwitchSystem} (h : SwitchStep E may S S') (hmay : ∀ S, may S → may' S) :
    SwitchStep E may' S S' := by
  cases h with
  | instr callee hexec hsource => exact .instr callee hexec hsource
  | iretq hret => exact .iretq hret
  | irq v callee h hif hist hv henter hh => exact .irq v callee (hmay _ h) hif hist hv henter hh
  | int80 callee h hnone henter hh => exact .int80 callee (hmay _ h) hnone henter hh
  | kexit callee hnone ht hsource hcur henter hh => exact .kexit callee hnone ht hsource hcur henter hh
  | thread hnone ht hcur hcode => exact .thread hnone ht hcur hcode
  | create hnone ht hcur hcode hfresh hu => exact .create hnone ht hcur hcode hfresh hu
  | procRun hnone hcur => exact .procRun hnone hcur

/-- The machine in which the handler is entered: a stub has thirteen instructions. -/
def handlerOf (E : SwitchEnv) (callee : IsrCall → Cpu → Cpu) (m : Cpu) (v : Fin 256) : Cpu :=
  ((E.prog.run callee 13 (interrupt E.isr m v 0#64)).1.head?.map Prod.snd).getD m

theorem entersHandler_handlerOf
    (h : (E.prog.run callee 13 (interrupt E.isr m v 0#64)).1.map Prod.fst = [.irqHandler]) :
    EntersHandler E.isr callee m v 0#64 (handlerOf E callee m v) := by
  obtain ⟨x, hx, hfst⟩ := List.map_eq_singleton_iff.1 h
  have hexec : E.prog.Exec callee (interrupt E.isr m v 0#64) _ _ := Program.exec_run 13 _
  rw [hx] at hexec
  obtain ⟨f, c⟩ := x
  obtain rfl : f = .irqHandler := hfst
  refine ⟨(E.prog.run callee 13 (interrupt E.isr m v 0#64)).2, ?_⟩
  rw [handlerOf, hx]
  exact hexec

/-- A handler that enables interrupts and returns. -/
def returnSti (_ : IsrCall) (c : Cpu) : Cpu :=
  { c with
    rip := c.mem (c.reg .rsp)
    reg := Function.update c.reg .rsp (c.reg .rsp + 8#64)
    rflags := c.rflags ||| 0x200#64 }

theorem handles_returnSti (f : IsrCall) (c : Cpu) : Handles threads c (returnSti f c) where
  conv :=
    { rip := rfl
      rsp := by simp [returnSti]
      reg := fun _ hr => Function.update_of_ne (ne_of_mem_calleeSaved hr).1 ..
      seg := rfl
      frame := fun _ _ => rfl }
  keeps := ⟨fun _ _ => rfl, fun _ _ => rfl, fun _ _ _ _ _ => rfl⟩
  var := rfl
  sti := by simp [returnSti, interruptsEnabled]

/-- Three threads, the source and two others: each has its node, its context and its stack in 64 KiB of its
own. -/
def threadAt (k : Fin 3) : Kthread where
  node := BitVec.ofNat 64 (0x10000 * (k + 1))
  ctx := BitVec.ofNat 64 (0x10000 * (k + 1) + 8)
  stack := ⟨0x10000 * (k + 1) + 0x1000, 0x10000 * (k + 1) + 0x1000 + procStackSize⟩
  node_ne := by revert k; decide
  ctx_ne := by revert k; decide
  node_off := by revert k; decide
  ctx_off := by revert k; decide

/-- Their memory before the first `PROC_run`. -/
def threadsMem (a : Word) : Word :=
  if a.toNat % 0x10000 = 0 then a + 8#64
  else if a.toNat % 0x10000 = 8 ∧ a.toNat / 0x10000 ≠ 1 then a - 8#64 + 0x2f38#64
  else if a.toNat % 0x10000 = 0x2fd0 then 0x500000#64
  else if a.toNat % 0x10000 = 0x2fe0 then 0x202#64
  else if a.toNat % 0x10000 = 0x2fe8 then a + 16#64
  else 0#64

/-- The source is `threadAt 0`. -/
def switchEnv : SwitchEnv where
  isr := someIsrEnv
  exRange := ⟨0x203000, 0x204000⟩
  source := threadAt 0
  exRange_hi := rfl

/-- The system before the first `PROC_run`. -/
def switchBoot : SwitchSystem where
  cpu :=
    { reg := fun r => if r = .rsp then 0x12f00#64 else 0#64
      seg := fun _ => 0#16
      rip := 0x500000#64
      rflags := 0x202#64
      mem := threadsMem
      var := fun v => if v = .curProc then (threadAt 0).node else 0#64 }
  threads := [threadAt 0, threadAt 1, threadAt 2]

theorem Kthread.Uses.div {k : Fin 3} {a : Word} (h : (threadAt k).Uses a) : a.toNat / 0x10000 = k + 1 := by
  have hk := k.isLt
  rcases h with rfl | rfl | h
  · simp only [threadAt, BitVec.toNat_ofNat]
    omega
  · simp only [threadAt, BitVec.toNat_ofNat]
    omega
  · simp only [threadAt, StackRange.Has, procStackSize] at h
    omega

theorem switchBoot_boot : SwitchBoot switchEnv switchBoot where
  apart := by
    have hapart : ∀ j k : Fin 3, j ≠ k → (threadAt j).Apart (threadAt k) := by
      intro j k hne a hj hk
      have := hj.div.symm.trans hk.div
      omega
    simp [switchBoot, hapart]
  ex := by
    have hex : ∀ k : Fin 3, ∀ a, switchEnv.exRange.Has a → ¬ (threadAt k).Uses a := by
      intro k a ha hk
      have hdiv := hk.div
      simp only [switchEnv, StackRange.Has] at ha
      omega
    simpa [switchBoot] using ⟨hex 0, hex 1, hex 2⟩
  exRoom := by decide
  source := .head _
  created := by
    intro t ht hne
    simp only [switchBoot, List.mem_cons, List.not_mem_nil, or_false] at ht
    rcases ht with rfl | rfl | rfl
    · exact absurd rfl hne
    all_goals
      exact ⟨rfl, by decide, by decide, by decide, by decide, by decide⟩
  node := rfl
  ctx := rfl
  curProc := rfl
  nextProc := rfl
  code := rfl
  rsp := by decide

/-- The running thread selects a thread. -/
def select (k : Fin 3) (S : SwitchSystem) : SwitchSystem where
  cpu := { S.cpu with var := fun v => if v = .curProc then S.cpu.var .curProc else (threadAt k).node }
  threads := S.threads

/-- An interrupt, up to the return of the handler. -/
def afterHandler (v : Fin 256) (S : SwitchSystem) : SwitchSystem where
  cpu := returnSti .irqHandler (handlerOf switchEnv returnSti S.cpu v)
  threads := S.threads

/-- `int $0x80`. -/
def yieldVector : Fin 256 := ⟨0x80, by decide⟩

/-- Some instructions. -/
def after (n : Nat) (S : SwitchSystem) : SwitchSystem where
  cpu := (switchEnv.prog.run returnSti n S.cpu).2
  threads := S.threads

/-- The source yields to the first thread. -/
def firstRuns : SwitchSystem :=
  let S := after 57 (afterHandler yieldVector (select 1 switchBoot))
  ⟨S.cpu.iretq, S.threads⟩

/-- The first thread yields to the second one, and is about to set `cur_proc`. -/
def onItsWay : SwitchSystem := after 33 (afterHandler yieldVector (select 2 firstRuns))

/-- In the code of a thread the machine is not on its way. -/
theorem not_switching_of_code (h : E.prog.fetch S.cpu = none) : ¬ Switching E S := by
  rintro ⟨-, p, hp, hrip⟩
  have hlt : ∀ p ∈ switchPositions, p < 69 ∧ isrCode[p]? ≠ none := by decide
  obtain ⟨hp69, hsome⟩ := hlt p hp
  rw [fetch_eq hrip hp69] at h
  exact hsome h

/-- A thread selects another one and yields. -/
theorem select_yield {j k : Fin 3} (hmem : (threadAt j) ∈ S.threads ∧ (threadAt k) ∈ S.threads)
    (hcode : switchEnv.prog.fetch S.cpu = none) (hcur : S.curProc = (threadAt j).node)
    (hrsp : (threadAt j).stack.lo + 216 ≤ (S.cpu.reg .rsp).toNat ∧
      (S.cpu.reg .rsp).toNat ≤ (threadAt j).stack.hi)
    (hcalls : (switchEnv.prog.run returnSti 13
      (interrupt switchEnv.isr (select k S).cpu 0x80 0#64)).1.map Prod.fst = [.irqHandler]) :
    Relation.ReflTransGen (SwitchStep switchEnv fun S => HasRoom switchEnv S ∧ ¬ Switching switchEnv S) S
      (afterHandler yieldVector (select k S)) := by
  have hselect : ThreadCode switchEnv (threadAt j) S (select k S).cpu :=
    { curProc := hcur
      nextProc := .inr ⟨threadAt k, hmem.2, rfl⟩
      code := hcode
      rsp := ⟨show _ < (S.cpu.reg .rsp).toNat by omega, hrsp.2⟩
      keeps := ⟨fun _ _ => rfl, fun _ _ => rfl, fun _ _ _ _ _ => rfl⟩ }
  have hroom : HasRoom switchEnv (select k S) :=
    ⟨(threadAt j).stack, .tail _ (List.mem_map_of_mem hmem.1), hrsp⟩
  exact .head (.thread hcode hmem.1 hcur hselect) (.single (.int80 (S := select k S) returnSti
    ⟨hroom, not_switching_of_code hcode⟩ hcode (entersHandler_handlerOf hcalls) (handles_returnSti ..)))

set_option maxRecDepth 4000 in
theorem run_onItsWay : Relation.ReflTransGen
    (SwitchStep switchEnv fun S => HasRoom switchEnv S ∧ ¬ Switching switchEnv S) switchBoot onItsWay := by
  have hyield := select_yield (S := switchBoot) (j := 0) (k := 1) ⟨.head _, .tail _ (.head _)⟩ rfl rfl
    (by decide) rfl
  have hrestore := hyield.trans (switchStep_run (E := switchEnv) returnSti 57 rfl)
  have hfirst := hrestore.tail (.iretq rfl)
  have hyield' := hfirst.trans (select_yield (S := firstRuns) (j := 1) (k := 2)
    ⟨.tail _ (.head _), .tail _ (.tail _ (.head _))⟩ rfl rfl (by decide) rfl)
  exact hyield'.trans (switchStep_run (E := switchEnv) returnSti 33 rfl)

/-- A run without an interrupt on the way. -/
theorem ownsContexts_onItsWay : OwnsContexts switchEnv onItsWay :=
  ownsContexts switchBoot_boot run_onItsWay

set_option maxRecDepth 4000 in
/-- An interrupt before the store to `cur_proc`: the context of the first thread comes to point into the stack
of the second one. -/
theorem not_ownsContexts_interrupted : ∃ E S₀ S, SwitchBoot E S₀ ∧
    Relation.ReflTransGen (SwitchStep E (HasRoom E)) S₀ S ∧ ¬ OwnsContexts E S := by
  refine ⟨switchEnv, switchBoot, after 27 (afterHandler 0x21 onItsWay), switchBoot_boot, ?_, fun howns => ?_⟩
  · have hrun : Relation.ReflTransGen (SwitchStep switchEnv (HasRoom switchEnv)) switchBoot onItsWay :=
      run_onItsWay.lift id fun _ _ hstep => hstep.mono fun _ hmay => hmay.1
    have hroom : HasRoom switchEnv onItsWay :=
      ⟨(threadAt 2).stack, .tail _ (.tail _ (.tail _ (.head _))), by decide, by decide⟩
    have hirq := hrun.tail (.irq (S := onItsWay) 0x21 returnSti hroom rfl (by decide)
      (by decide) (entersHandler_handlerOf rfl) (handles_returnSti ..))
    exact hirq.trans (switchStep_run (E := switchEnv) returnSti 27 rfl)
  · rcases howns (threadAt 1) (.tail _ (.head _)) with hhas | ⟨hsource, -⟩
    · exact absurd hhas (by decide)
    · exact absurd hsource (by decide)

end

end BanjOS
