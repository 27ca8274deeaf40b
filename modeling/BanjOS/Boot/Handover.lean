import BanjOS.Boot.Start
import BanjOS.PageAllocator.Hardware

/-!
# From the boot tables to those of the kernel

`kmain` runs on the stack of 64 bytes that `boot.asm` reserves, right above the table of large pages. What it pushes
beyond that goes into the table, from the last entry down, until `init_page_table` loads other tables. The entries below
are as they were, and at the switch no address of theirs that is in memory changes its meaning (`kmain_map`).
-/

namespace BanjOS

open ByteMem BitFields X86

section
variable {env : BootEnv} {c : BootCpu} {k : LongMode} {m : Mem} {depth j : Nat}

/-- With a stack that is at most `64 + 8 * j` bytes deep, all large pages but the last `j` keep their entries. -/
theorem Booted.tables_below (L : BootLayout env) (hk : Booted env c k) (hdepth : depth ≤ 64 + 8 * j) (hj : j ≤ 512)
    (hm : ∀ b, InRange env.p4Table 12288 b → ¬ InRange (env.stackTop - depth) depth b → m b = k.mem b) :
    BootTables env (512 - j) m := by
  have hp3 := L.p3
  have hp2 := L.p2
  have hstack := L.stack
  refine hk.tables.congr L (Nat.sub_le _ _) fun b hb => ?_
  have h₁ := hb.1
  have h₂ := hb.2
  refine hm b ⟨h₁, by omega⟩ fun hin => ?_
  have h₃ := hin.1
  omega

/-- The entry of an address is the word that is pushed in its place. -/
theorem entryFor_stack (L : BootLayout env) {v : Nat} (hv : v < 2 ^ 30) :
    entryFor m v 1 env.p2Table = load64 m (env.stackTop - 64 - 8 * (512 - v / 2 ^ 21)) := by
  have hstack := L.stack
  have hi : v / 2 ^ 21 < 512 := (Nat.div_lt_iff_lt_mul (by decide)).2 hv
  have hindex : field v (levelShift 1) 9 = v / 2 ^ 21 := Nat.mod_eq_of_lt hi
  have haddr : env.p2Table + 8 * (v / 2 ^ 21) = env.stackTop - 64 - 8 * (512 - v / 2 ^ 21) := by omega
  rw [entryFor, hindex, haddr]

/-- While the stack of `kmain` is at most `64 + 8 * j` bytes deep, whatever is pushed and whatever else is written outside
of the tables: the addresses below the last `j` large pages are mapped to themselves; an address whose entry has become a
word with bit 0 clear is not mapped, and none above the first gibibyte is; and once `init_page_table` has built its tables,
the addresses of memory from page 1 on (page 0 is not mapped any more) below the last `j` large pages mean under them what
they mean under those of `boot.asm`. -/
theorem kmain_map (L : BootLayout env) (hk : Booted env c k) (hdepth : depth ≤ 64 + 8 * j) (hj : j ≤ 512)
    (hm : ∀ b, InRange env.p4Table 12288 b → ¬ InRange (env.stackTop - depth) depth b → m b = k.mem b) :
    (∀ v, v < (512 - j) * 2 ^ 21 → translateAddr m k.cr3 v = some ⟨v, true⟩) ∧
    (∀ v, v < 2 ^ 30 → load64 m (env.stackTop - 64 - 8 * (512 - v / 2 ^ 21)) % 2 = 0 → translateAddr m k.cr3 v = none) ∧
    (∀ v, 2 ^ 30 ≤ v → translateAddr m k.cr3 v = none) ∧
    ∀ regions root s₀, BootRegions regions → initPageTable ⟨m, 0, regions⟩ = .ok (root, s₀) →
      ∀ v, pageSize ≤ v → v < memEnd regions → v < (512 - j) * 2 ^ 21 →
        translateAddr s₀.mem root v = translateAddr m k.cr3 v := by
  have htables := hk.tables_below L hdepth hj hm
  have hlow (v : Nat) (hv : v < (512 - j) * 2 ^ 21) : translateAddr m k.cr3 v = some ⟨v, true⟩ := by
    rw [hk.cr3]
    exact htables.translate_low L (Nat.sub_le _ _) hv
  refine ⟨hlow, fun v hv hclear => ?_, fun v hv => ?_, fun regions root s₀ hr hinit v hpage hend hv => ?_⟩
  · rw [← entryFor_stack L hv] at hclear
    rw [hk.cr3, htables.translate_eq L hv]
    refine walkFrom_absent fun hp => ?_
    have hbit := hp.1
    unfold field at hbit
    omega
  · rw [hk.cr3]
    exact htables.translate_high L hv
  · rcases heapRun_plain hr hinit .refl with ⟨M, top, hall, hinv, hp, hM⟩
    rw [hlow v hv]
    exact (hinv.translate_ident hall hp (by omega)).trans (if_pos ⟨hpage, hM ▸ hend⟩)

/-- A stack of 72 bytes, with a zero pushed last: the last large page is not mapped any more. -/
theorem kmain_map_last_page : ∃ k m, start bootEnvExample 512 bootCpuExample = .ok k ∧
    translateAddr m k.cr3 0x3fdfffff = some ⟨0x3fdfffff, true⟩ ∧ translateAddr m k.cr3 0x3fe00000 = none := by
  have h : ∃ k, start bootEnvExample 512 bootCpuExample = .ok k ∧ Booted bootEnvExample bootCpuExample k := by
    rcases start_booted bootLayout_example bootImage_example (by decide) (by decide) (by decide) (Nat.le_refl 512) with
      ⟨code, e, hcheck, -⟩ | ⟨-, k, hk, hbooted⟩
    · cases hcheck
    · exact ⟨k, hk, hbooted⟩
  rcases h with ⟨k, hk, hbooted⟩
  have hm (b : Nat) (hb : InRange bootEnvExample.p4Table 12288 b)
      (hout : ¬ InRange (bootEnvExample.stackTop - 72) 72 b) : store64 k.mem 0x106ff8 0 b = k.mem b :=
    store64_apply_of_not_mem fun hin => hout (hin.mono (Nat.le_refl _) (by decide))
  have hzero : load64 (store64 k.mem 0x106ff8 0) 0x106ff8 % 2 = 0 := by
    rw [load64_store64_self, Nat.zero_mod]
  have hmap := @kmain_map _ _ _ _ 72 1 bootLayout_example hbooted (Nat.le_refl _) (by decide) hm
  exact ⟨k, _, hk, hmap.1 _ (by decide), hmap.2.1 0x3fe00000 (by decide) hzero⟩

end

end BanjOS
