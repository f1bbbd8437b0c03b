import BloodKernel.Kernel.Types
import BloodKernel.Lib.Run
import BloodKernel.Lib.Words

set_option autoImplicit false

/-!
# The page tables and the frame allocator

`src/drivers/paging.c`. The driver uses the addresses of its structures as pointers, and the model
accesses them at these physical addresses. The translation cache, `cr0`, `cr3` and the messages are left
out.

* `State`: the static data and the memory; `Grant`: a page that `alloc_physical_page` has returned;
* `allocPhysicalPage`, `freePhysicalPage`, `pagingInit`, `pagingMapPage`, `pagingUnmapPage`,
  `pagingGetPhysicalAddr`, `pagingAllocPages`, `pagingFreePages`, `pagingGetFreeMemory`,
  `pagingHandlePageFault`: the functions;
* `step`: one call.
-/

namespace BloodKernel.Paging

open Lib

/-- `PAGE_PRESENT` -/
def pagePresent : U32 := 0x001

/-- `PAGE_WRITABLE` -/
def pageWritable : U32 := 0x002

/-- `PAGE_USER` -/
def pageUser : U32 := 0x004

/-- `KERNEL_PAGE_NUMBER` -/
def kernelPageNumber : ℕ := 768

/-- A page returned by the allocator that uses the bitmap, and the memory at that time. -/
structure Grant where
  frame : U32
  mem : Words

/-- The static data and the memory. `handed` records what the allocator has returned; no function
reads it. -/
structure State where
  pageDirectory : U32
  nextFreePage : U32
  totalMemory : U32
  pageBitmap : U32
  bitmapSize : U32
  mem : Words
  handed : List Grant

/-- Before `paging_init`, with the given memory. -/
def boot (mem : Words) : State := ⟨0, 0x400000, 0, 0, 0, mem, []⟩

/-- `p[i] = v` -/
def State.write (s : State) (p : U32) (i : ℕ) (v : U32) : State := { s with mem := setWord s.mem p i v }

/-- `page_bitmap[i]` -/
def State.bits (s : State) (i : ℕ) : U32 := word s.mem s.pageBitmap i

/-- `page_directory[d]` -/
def State.pde (s : State) (d : ℕ) : U32 := word s.mem s.pageDirectory d

/-- The address in an entry. -/
def frameOf (w : U32) : U32 := w &&& 0xFFFFF000

/-- The page table of `page_directory[d]`. -/
def State.table (s : State) (d : ℕ) : U32 := frameOf (s.pde d)

/-- Entry `k` of this table. -/
def State.pte (s : State) (d k : ℕ) : U32 := word s.mem (s.table d) k

def Present (w : U32) : Prop := w &&& pagePresent ≠ 0

instance decidablePresent (w : U32) : Decidable (Present w) := inferInstanceAs (Decidable (_ ≠ _))

def dirIndex (v : U32) : ℕ := (v >>> 22).toNat

def tableIndex (v : U32) : ℕ := ((v >>> 12) &&& 0x3FF).toNat

/-! ### The frame allocator -/

/-- The first clear bit of a word of the bitmap. -/
def clearBit (w : U32) : Option ℕ := (List.range 32).find? fun b => w &&& bit b = 0

/-- The first clear bit of the bitmap: the index of its word, and its place. -/
def findClear (s : State) : Option (ℕ × ℕ) := (List.range s.bitmapSize.toNat).findSome? fun i =>
  if s.bits i ≠ 0xFFFFFFFF then (clearBit (s.bits i)).map (i, ·) else none

def allocPhysicalPage (s : State) : U32 × State :=
  if s.pageBitmap = 0 then
    (s.nextFreePage, { s with nextFreePage := s.nextFreePage + 4096 })
  else match findClear s with
    | some (i, b) =>
        let page := BitVec.ofNat 32 (i * 32 + b) * 4096
        let s := s.write s.pageBitmap i (s.bits i ||| bit b)
        (page, { s with handed := s.handed ++ [⟨page, s.mem⟩] })
    | none => (0, s)

def freePhysicalPage (s : State) (addr : U32) : State :=
  if s.pageBitmap = 0 then s
  else
    let pageNum := addr.toNat / 4096
    let i := pageNum / 32
    let b := pageNum % 32
    if i < s.bitmapSize.toNat then s.write s.pageBitmap i (s.bits i &&& ~~~bit b) else s

/-- Set the bits of the first `n` pages. -/
def markPages (s : State) : ℕ → State
  | 0 => s
  | n + 1 =>
      let s := markPages s n
      if n / 32 < s.bitmapSize.toNat then
        s.write s.pageBitmap (n / 32) (s.bits (n / 32) ||| bit (n % 32))
      else s

/-- The page directory, cleared. -/
def initDirectory (s : State) : State :=
  let r := allocPhysicalPage s
  { r.2 with pageDirectory := r.1, mem := fill r.2.mem r.1 (fun _ => 0) 1024 }

/-- The entries that map the first 4 MB to themselves. -/
def identityEntry (i : ℕ) : U32 := BitVec.ofNat 32 (i * 4096) ||| pagePresent ||| pageWritable

/-- The table of the first 4 MB, for the lower and the higher half. -/
def initKernelTable (s : State) : State :=
  let r := allocPhysicalPage s
  let s := r.2.write r.2.pageDirectory 0 (r.1 ||| pagePresent ||| pageWritable)
  let s := { s with mem := fill s.mem r.1 identityEntry 1024 }
  s.write s.pageDirectory kernelPageNumber (r.1 ||| pagePresent ||| pageWritable)

def initBitmap (s : State) (memorySize : U32) : State :=
  let totalPages := memorySize.toNat / 4096
  let s := { s with bitmapSize := BitVec.ofNat 32 ((totalPages + 31) / 32) }
  let r := allocPhysicalPage s
  { r.2 with pageBitmap := r.1, mem := fill r.2.mem r.1 (fun _ => 0) r.2.bitmapSize.toNat }

def pagingInit (s : State) (memorySize : U32) : State :=
  let s := initDirectory { s with totalMemory := memorySize }
  let s := initKernelTable s
  let s := initBitmap s memorySize
  markPages s (s.nextFreePage.toNat / 4096)

/-! ### Mapping -/

/-- Allocate and clear a missing page table: whether there is one now. -/
def ensureTable (s : State) (d : ℕ) : Bool × State :=
  if ¬ Present (s.pde d) then
    let r := allocPhysicalPage s
    if r.1 = 0 then (false, r.2)
    else
      let s := { r.2 with mem := fill r.2.mem r.1 (fun _ => 0) 1024 }
      (true, s.write s.pageDirectory d (r.1 ||| pagePresent ||| pageWritable ||| pageUser))
  else (true, s)

def pagingMapPage (s : State) (virtualAddr physicalAddr flags : U32) : U32 × State :=
  let d := dirIndex virtualAddr
  let k := tableIndex virtualAddr
  let r := ensureTable s d
  if r.1 then (1, r.2.write (r.2.table d) k (physicalAddr ||| flags)) else (0, r.2)

def pagingUnmapPage (s : State) (virtualAddr : U32) : State :=
  let d := dirIndex virtualAddr
  let k := tableIndex virtualAddr
  if ¬ Present (s.pde d) then s
  else
    let pageTable := s.table d
    if Present (word s.mem pageTable k) then
      let s := freePhysicalPage s (frameOf (word s.mem pageTable k))
      s.write pageTable k 0
    else s

def pagingGetPhysicalAddr (s : State) (virtualAddr : U32) : U32 :=
  let d := dirIndex virtualAddr
  let k := tableIndex virtualAddr
  if ¬ Present (s.pde d) then 0
  else if ¬ Present (s.pte d k) then 0
  else frameOf (s.pte d k) + (virtualAddr &&& 0xFFF)

/-! ### Ranges of pages -/

/-- The address of page `i` of a range. -/
def pageAddr (virtualAddr : U32) (i : ℕ) : U32 := virtualAddr + BitVec.ofNat 32 i * 4096

/-- Unmap the first `n` pages of a range. -/
def unmapPages (s : State) (virtualAddr : U32) : ℕ → State
  | 0 => s
  | n + 1 => pagingUnmapPage (unmapPages s virtualAddr n) (pageAddr virtualAddr n)

def pagingFreePages (s : State) (ptr count : U32) : State := unmapPages s ptr count.toNat

/-- Allocate and map the pages from `j` on, `n` of them. -/
def mapPages (s : State) (virtualAddr : U32) : ℕ → ℕ → U32 × State
  | _, 0 => (virtualAddr, s)
  | j, n + 1 =>
      let r := allocPhysicalPage s
      if r.1 = 0 then (0, unmapPages r.2 virtualAddr j)
      else
        let s := (pagingMapPage r.2 (pageAddr virtualAddr j) r.1 (pagePresent ||| pageWritable)).2
        mapPages s virtualAddr (j + 1) n

def heapStart : U32 := 0xD0000000

/-- No page of a range has a physical address. -/
def unmapped (s : State) (virtualAddr count : U32) : Bool :=
  (List.range count.toNat).all fun j => pagingGetPhysicalAddr s (pageAddr virtualAddr j) = 0

def pagingAllocPages (s : State) (count : U32) : U32 × State :=
  match (List.range 0x10000).find? fun i => unmapped s (pageAddr heapStart i) count with
  | some i => mapPages s (pageAddr heapStart i) 0 count.toNat
  | none => (0, s)

/-- The number of clear bits of the bitmap, times the size of a page. -/
def pagingGetFreeMemory (s : State) : U32 :=
  if s.pageBitmap = 0 then 0
  else
    let freePages := (List.range s.bitmapSize.toNat).foldl (fun n i =>
      (List.range 32).foldl (fun n b => if s.bits i &&& bit b = 0 then n + 1 else n) n) (0 : U32)
    freePages * 4096

def pagingHandlePageFault (s : State) (errorCode virtualAddr : U32) : State :=
  if errorCode &&& 1 ≠ 0 then s
  else if heapStart ≤ virtualAddr ∧ virtualAddr < 0xE0000000 then
    let r := allocPhysicalPage s
    if r.1 ≠ 0 then
      (pagingMapPage r.2 (virtualAddr &&& 0xFFFFF000) r.1 (pagePresent ||| pageWritable)).2
    else r.2
  else s

/-! ### The calls -/

inductive Op
  | map (virtualAddr physicalAddr flags : U32)
  | unmap (virtualAddr : U32)
  | alloc (count : U32)
  | free (ptr count : U32)
  | fault (errorCode virtualAddr : U32)

/-- A call with its result, if it returns one. -/
abbrev Event := Op × Option U32

def step (s : State) : Op → Option U32 × State
  | .map v p flags => (some (pagingMapPage s v p flags).1, (pagingMapPage s v p flags).2)
  | .unmap v => (none, pagingUnmapPage s v)
  | .alloc count => (some (pagingAllocPages s count).1, (pagingAllocPages s count).2)
  | .free ptr count => (none, pagingFreePages s ptr count)
  | .fault err v => (none, pagingHandlePageFault s err v)

/-- After `paging_init`. -/
def start (mem : Words) (memorySize : U32) : State := pagingInit (boot mem) memorySize

end BloodKernel.Paging
