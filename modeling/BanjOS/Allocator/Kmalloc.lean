import BanjOS.Basic
import BanjOS.Lib.Run
import Mathlib.Data.Int.Notation

/-!
# kmalloc and kfree

`init_alloc`, `pool_allocate_page`, `kmalloc` and `kfree` (`allocator.c`). The code reads and writes
64-bit words at virtual addresses and takes pages from the page allocator; `PagedMem` is that
interface, so that the same code runs over the paged kernel, where a word access can fault, and over a
flat virtual memory.

`struct KmallocPool` is two words, `max_size` and `head`; the six pools are an array at the address
`pools`. `struct KmallocHeader` is two words, `pool` and `size`; a free block's first word is its link
(`struct FreeList`).
-/

namespace BanjOS

/-- The memory `allocator.c` works in: words at virtual addresses, and the calls of
`page_allocator.h`. -/
class PagedMem (σ : Type) where
  /-- Read the word at a virtual address. -/
  load : Nat → σ → Except Stop (Nat × σ)
  /-- Write the word at a virtual address. -/
  store : Nat → Nat → σ → Except Stop σ
  /-- `MMU_alloc_page`. -/
  allocPage : σ → Except Stop (Nat × σ)
  /-- `MMU_alloc_pages`. -/
  allocPages : Int → σ → Except Stop (Nat × σ)
  /-- `MMU_free_pages`. -/
  freePages : Nat → Int → σ → Except Stop σ

/-- `sizeof(struct KmallocHeader)`. -/
abbrev headerSize : Nat := 16

/-- `block_sizes`. -/
def blockSizes : List Nat := [32, 64, 128, 512, 1024, 2048]

/-- The block size of the pool `i`. -/
def blockSize (i : Nat) : Nat := blockSizes.getD i 0

/-- `BLOCK_SIZES_LEN`. -/
abbrev blockSizesLen : Nat := 6

/-- The address of `pools[i]`. -/
abbrev poolAddr (pools i : Nat) : Nat := pools + 16 * i

/-- The address of the `head` field of the pool at `pool`. -/
abbrev headOf (pool : Nat) : Nat := pool + 8

/-- A `size_t` passed as an `int`. -/
def toInt (n : Nat) : Int := (n : Int).bmod (2 ^ 32)

/-- `size / MMU_PAGE_SIZE + !!(size % MMU_PAGE_SIZE)`. -/
def numPages (size : Nat) : Nat := size / pageSize + if size % pageSize ≠ 0 then 1 else 0

section
variable {σ : Type} [PagedMem σ]

open PagedMem

/-- The loop of `init_alloc` from the pool `i` on, with the block sizes from there on. -/
def initPools (pools : Nat) : List Nat → Nat → σ → Except Stop σ
  | [], _, s => .ok s
  | size :: sizes, i, s => do
    let s ← store (poolAddr pools i) (size - headerSize) s
    let s ← store (headOf (poolAddr pools i)) 0 s
    initPools pools sizes (i + 1) s

/-- `init_alloc`. -/
def initAlloc (pools : Nat) (s : σ) : Except Stop σ := initPools pools blockSizes 0 s

/-- `n` iterations of the loop of `pool_allocate_page`: push the blocks from `block` on, `size` bytes
apart. -/
def pushBlocks (pool size : Nat) : (n block : Nat) → σ → Except Stop σ
  | 0, _, s => .ok s
  | n + 1, block, s => do
    let (head, s) ← load (headOf pool) s
    let s ← store block head s
    let s ← store (headOf pool) block s
    pushBlocks pool size n (block + size) s

/-- `pool_allocate_page`: carve a new page into blocks. The loop runs while
`block < page + MMU_PAGE_SIZE`. -/
def poolAllocatePage (pool : Nat) (s : σ) : Except Stop σ := do
  let (page, s) ← allocPage s
  let (maxSize, s) ← load pool s
  let size := (maxSize + headerSize) % 2 ^ 64
  if pageSize % size ≠ 0 then
    .error (.assertion "MMU_PAGE_SIZE % (pool->max_size + sizeof(struct KmallocHeader)) == 0 && \"pool size must be a multiple of block size\"")
  else pushBlocks pool size ((pageSize + (size - 1)) / size) page s

/-- The search loop of `kmalloc` from the pool `i` on, with `n` pools left: the first pool whose
`max_size` is large enough, or `BLOCK_SIZES_LEN`. -/
def findPool (pools size : Nat) : (n i : Nat) → σ → Except Stop (Nat × σ)
  | 0, i, s => .ok (i, s)
  | n + 1, i, s => do
    let (maxSize, s) ← load (poolAddr pools i) s
    if size > maxSize then findPool pools size n (i + 1) s else .ok (i, s)

/-- The end of the branch of `kmalloc` for a pool: pop the first block and write its header. -/
def takeBlock (pool : Nat) (s : σ) : Except Stop (Nat × σ) := do
  let (addr, s) ← load (headOf pool) s
  let (next, s) ← load addr s
  let s ← store (headOf pool) next s
  let s ← store addr pool s
  let s ← store (addr + 8) 0 s
  .ok ((addr + headerSize) % 2 ^ 64, s)

/-- The branch of `kmalloc` for a pool: refill it if it is empty and take a block. -/
def kmallocPool (pool : Nat) (s : σ) : Except Stop (Nat × σ) := do
  let (head, s) ← load (headOf pool) s
  let s ← (if head = 0 then poolAllocatePage pool s else .ok s)
  takeBlock pool s

/-- The branch of `kmalloc` for pages of its own. -/
def kmallocDedicated (size : Nat) (s : σ) : Except Stop (Nat × σ) := do
  let size := (size + headerSize) % 2 ^ 64
  let (addr, s) ← allocPages (toInt (numPages size)) s
  let s ← store addr 0 s
  let s ← store (addr + 8) size s
  .ok ((addr + headerSize) % 2 ^ 64, s)

/-- `kmalloc`. -/
def kmalloc (pools size : Nat) (s : σ) : Except Stop (Nat × σ) := do
  let (i, s) ← findPool pools size blockSizesLen 0 s
  if i < blockSizesLen then kmallocPool (poolAddr pools i) s else kmallocDedicated size s

/-- `kfree`. A dedicated block is given back from the user pointer on, not from its header. -/
def kfree (addr : Nat) (s : σ) : Except Stop σ := do
  let block := (addr + (2 ^ 64 - headerSize)) % 2 ^ 64
  let (pool, s) ← load block s
  let (size, s) ← load (block + 8) s
  if pool ≠ 0 then do
    let (head, s) ← load (headOf pool) s
    let s ← store block head s
    store (headOf pool) block s
  else freePages addr (toInt (numPages size)) s

/-- A request for which the search finds no pool takes the dedicated path. -/
theorem kmalloc_dedicated {pools size : Nat} {s s' : σ}
    (h : findPool pools size blockSizesLen 0 s = .ok (blockSizesLen, s')) :
    kmalloc pools size s = kmallocDedicated size s' := by
  have hb : ∀ f : Nat × σ → Except Stop (Nat × σ),
      ((Except.ok (blockSizesLen, s') : Except Stop _) >>= f) = f (blockSizesLen, s') := fun _ => rfl
  rw [kmalloc, h, hb]
  exact if_neg (Nat.lt_irrefl _)

end

/-! ## Sizes -/

/-- The pool of a request: the first one whose blocks hold it, or `BLOCK_SIZES_LEN`. -/
def poolIndex (size : Nat) : Nat := blockSizes.findIdx fun b => decide (size ≤ b - headerSize)

/-- The bytes of the block of a request, header included. -/
def blockLen (size : Nat) : Nat :=
  if poolIndex size < blockSizesLen then blockSize (poolIndex size)
  else pageSize * numPages (size + headerSize)

/-- A number below `2 ^ 31` is passed unchanged. -/
theorem toInt_of_lt {n : Nat} (hn : n < 2 ^ 31) : toInt n = n :=
  Int.bmod_eq_of_le (by omega) (by omega)

theorem poolIndex_le (size : Nat) : poolIndex size ≤ blockSizesLen := List.findIdx_le_length

/-- The six block sizes. -/
theorem blockSize_cases {i : Nat} (hi : i < blockSizesLen) :
    blockSize i = 32 ∨ blockSize i = 64 ∨ blockSize i = 128 ∨ blockSize i = 512 ∨
      blockSize i = 1024 ∨ blockSize i = 2048 := by
  obtain rfl | rfl | rfl | rfl | rfl | rfl : i = 0 ∨ i = 1 ∨ i = 2 ∨ i = 3 ∨ i = 4 ∨ i = 5 := by
    unfold blockSizesLen at hi
    omega
  all_goals decide

/-- A block of its pool holds the request and the header. -/
theorem le_blockSize {size : Nat} (h : poolIndex size < blockSizesLen) :
    size + headerSize ≤ blockSize (poolIndex size) := by
  have hlen : blockSizes.findIdx (fun b => decide (size ≤ b - headerSize)) < blockSizes.length := h
  have hget := List.findIdx_getElem (w := hlen)
  rw [decide_eq_true_iff] at hget
  have hval : blockSize (poolIndex size) =
      blockSizes.get ⟨blockSizes.findIdx (fun b => decide (size ≤ b - headerSize)), hlen⟩ := by
    rw [blockSize, poolIndex, List.getD_eq_getElem?_getD, List.getElem?_eq_getElem hlen,
      Option.getD_some, List.get_eq_getElem]
  have hle : size ≤ blockSize (poolIndex size) - headerSize := by
    rw [hval]
    exact hget
  have := blockSize_cases h
  unfold headerSize at *
  omega

/-- The pages of a dedicated block hold the request and the header. -/
theorem le_numPages (n : Nat) : n ≤ pageSize * numPages n := by
  unfold numPages pageSize
  split <;> omega

theorem le_blockLen (size : Nat) : size + headerSize ≤ blockLen size := by
  unfold blockLen
  split
  · next h => exact le_blockSize h
  · exact le_numPages _

end BanjOS
