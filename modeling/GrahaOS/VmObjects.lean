import GrahaOS.PageTables

/-!
# Virtual memory objects

`kernel/mm/vmo.c`. An object has an array of page slots, each the address of a physical frame or 0
for a page that is not populated. A clone starts with the frames of its source; a copy-on-write
clone is to get a frame of its own at the first write to a page, through `vmo_pf_dispatch`.

Objects are named by their `id`, which is never reused; a name without an object fails `vmo_check`.
Calls of the slab allocator and of `kmalloc` are parameters that say whether they succeed. Memory
limits are those of `kernel/resource/rlimit.c`.
-/

namespace GrahaOS.VmObjects

open PageFrames PageTables

/-- The flags of an object that the code reads. -/
structure VmoFlags where
  zeroed : Bool
  ondemand : Bool
  cowChild : Bool
  mmio : Bool
  contiguous : Bool
  deriving DecidableEq

/-- The protection of a mapping: `PROT_READ`, `PROT_WRITE` and `PROT_EXEC`. -/
structure Prot where
  read : Bool
  write : Bool
  exec : Bool
  deriving DecidableEq

/-- `vmo_t`: `npages` is the length of the array. -/
structure Vmo where
  flags : VmoFlags
  sizeBytes : ℕ
  refcount : ℕ
  parent : Option ℕ
  pages : List ℕ

/-- `vmo_mapping_t`. A free slot of the table, whose `vaddr` is 0, is `none` there. -/
structure Mapping where
  vaddr : ℕ
  vmo : ℕ
  offset : ℕ
  lenPages : ℕ
  prot : Prot
  deriving DecidableEq

/-- What the functions read and write of a task. -/
structure Task where
  cr3 : ℕ
  memLimitPages : ℕ
  memPagesUsed : ℕ

/-- `VMO_MAX_TASKS`, `VMO_MAPPINGS_PER_TASK` and `VMO_MAX_SIZE`. -/
def maxTasks : ℕ := 256
def mappingsPerTask : ℕ := 64
def vmoMaxSize : ℕ := 256 * 1024 * 1024

structure VmoWorld where
  mmu : Mmu
  vmos : ℕ → Option Vmo
  nextId : ℕ
  maps : ℕ × ℕ → Option Mapping
  tasks : ℕ → Option Task

namespace VmoWorld

variable (w : VmoWorld)

/-- The page slot of an object, 0 when it is not populated. -/
def slot (v i : ℕ) : ℕ := ((w.vmos v).bind fun o => o.pages[i]?).getD 0

def setVmo (v : ℕ) (o : Option Vmo) : VmoWorld := { w with vmos := Function.update w.vmos v o }

def setSlot (v i phys : ℕ) : VmoWorld :=
  match w.vmos v with
  | none => w
  | some o => w.setVmo v (some { o with pages := o.pages.set i phys })

def setTask (pid : ℕ) (t : Task) : VmoWorld :=
  { w with tasks := Function.update w.tasks pid (some t) }

def setMap (key : ℕ × ℕ) (m : Option Mapping) : VmoWorld :=
  { w with maps := Function.update w.maps key m }

def setPmm (pmm : Pmm) : VmoWorld := { w with mmu := { w.mmu with pmm := pmm } }

/-- `pmm_page_ref` and `pmm_page_unref`. -/
def pageRef (phys : ℕ) : VmoWorld := w.setPmm (pmmPageRef w.mmu.pmm phys)
def pageUnref (phys : ℕ) : VmoWorld := w.setPmm (pmmFreePage w.mmu.pmm phys)

def allocPage : ℕ × VmoWorld :=
  let (page, pmm) := pmmAllocPage w.mmu.pmm
  (page, w.setPmm pmm)

def setPage (frame : ℕ) (page : Page) : VmoWorld := { w with mmu := w.mmu.setPage frame page }

/-- The frame is cleared when `VMO_ZEROED` is set. -/
def clearIf (zeroed : Bool) (phys : ℕ) : VmoWorld :=
  if zeroed then w.setPage (phys / pageSize) fun _ => 0 else w

def unmapPage (cr3 virt : ℕ) : VmoWorld :=
  { w with mmu := vmmUnmapPageByCr3 w.mmu cr3 virt }

def protectPage (cr3 virt : ℕ) (flags : PteFlags) : VmoWorld :=
  { w with mmu := vmmProtectPageByCr3 w.mmu cr3 virt flags }

def mapPage (cr3 virt phys : ℕ) (flags : PteFlags) : Bool × VmoWorld :=
  let (ok, mmu) := vmmMapPageByCr3 w.mmu cr3 virt phys flags
  (ok, { w with mmu := mmu })

end VmoWorld

variable (w : VmoWorld)

/-- `rlimit_check_mem` for one page. -/
def rlimitCheckMem (pid : ℕ) : Bool × VmoWorld :=
  match w.tasks pid with
  | none => (true, w)
  | some t =>
    if t.memLimitPages = 0 then (true, w)
    else if t.memLimitPages < t.memPagesUsed + 1 then (false, w)
    else (true, w.setTask pid { t with memPagesUsed := t.memPagesUsed + 1 })

/-- `rlimit_account_free_mem` for one page. -/
def rlimitAccountFreeMem (pid : ℕ) : VmoWorld :=
  match w.tasks pid with
  | none => w
  | some t => w.setTask pid { t with memPagesUsed := t.memPagesUsed - 1 }

/-- The eager loop of `vmo_create`: `left` pages are to be allocated, `pages` are there. The
second result is the array, `none` after the rollback. -/
def populate (zeroed : Bool) : ℕ → VmoWorld → List ℕ → VmoWorld × Option (List ℕ)
  | 0, w, pages => (w, some pages)
  | left + 1, w, pages =>
    let (page, w) := w.allocPage
    if page = 0 then (pages.foldl VmoWorld.pageUnref w, none)
    else populate zeroed left (w.clearIf zeroed page) (pages ++ [page])

/-- The page array of `vmo_create`, or `none` when the creation fails. -/
def createPages (npages : ℕ) (flags : VmoFlags) : VmoWorld × Option (List ℕ) :=
  if flags.contiguous then
    if flags.ondemand then (w, none)
    else if 64 < npages then (w, none)
    else
      let (base, pmm) := pmmAllocPages w.mmu.pmm npages
      let w := w.setPmm pmm
      if base = 0 then (w, none) else
      let pages := (List.range npages).map fun p => base + p * pageSize
      (pages.foldl (fun w page => w.clearIf flags.zeroed page) w, some pages)
  else if flags.ondemand then (w, some (List.replicate npages 0))
  else populate flags.zeroed npages w []

/-- `vmo_create`. The name is `none` where the source returns `NULL`. -/
def vmoCreate (sizeBytes : ℕ) (flags : VmoFlags) (headerOk arrayOk : Bool) : Option ℕ × VmoWorld :=
  if sizeBytes = 0 ∨ sizeBytes % pageSize ≠ 0 ∨ vmoMaxSize < sizeBytes then (none, w) else
  if !headerOk then (none, w) else
  let v := w.nextId
  let w := { w with nextId := v + 1 }
  if !arrayOk then (none, w) else
  match createPages w (sizeBytes / pageSize) flags with
  | (w, none) => (none, w)
  | (w, some pages) =>
    (some v, w.setVmo v (some ⟨flags, sizeBytes, 1, none, pages⟩))

/-- The frames of an object that is freed. -/
def releasePages (o : Vmo) : VmoWorld :=
  if o.flags.mmio then w
  else if o.flags.contiguous then
    w.setPmm (pmmFreePages w.mmu.pmm (o.pages.getD 0 0) o.pages.length)
  else o.pages.foldl VmoWorld.pageUnref w

/-- `vmo_free` on an object: the reference of a clone on its source is dropped by `unref`,
then the frames go. -/
def vmoFreeWith (unref : VmoWorld → ℕ → VmoWorld) (w : VmoWorld) (v : ℕ) : VmoWorld :=
  match w.vmos v with
  | none => w
  | some o =>
    let w := match o.parent with
      | none => w
      | some src => unref w src
    (releasePages w o).setVmo v none

/-- `vmo_unref`; the last reference frees the object. A clone is younger than its source, so
`v + 1` is enough fuel for the chain of sources. -/
def vmoUnrefAux : ℕ → VmoWorld → ℕ → VmoWorld
  | 0, w, _ => w
  | fuel + 1, w, v =>
    match w.vmos v with
    | none => w
    | some o =>
      let refcount := (o.refcount + 2 ^ 32 - 1) % 2 ^ 32
      let w := w.setVmo v (some { o with refcount := refcount })
      if refcount = 0 then vmoFreeWith (vmoUnrefAux fuel) w v else w

def vmoUnref (v : ℕ) : VmoWorld := vmoUnrefAux (v + 1) w v

/-- `vmo_free` as the callers reach it that have just created the object. -/
def vmoFree (v : ℕ) : VmoWorld := vmoFreeWith vmoUnref w v

def vmoRef (v : ℕ) : VmoWorld :=
  match w.vmos v with
  | none => w
  | some o => w.setVmo v (some { o with refcount := (o.refcount + 1) % 2 ^ 32 })

def vmoAllocMapSlot (pid : ℕ) : Option ℕ :=
  if pid < maxTasks then
    (List.range mappingsPerTask).find? fun s => (w.maps (pid, s)).isNone
  else none

def vmoFindMapSlot (pid vaddr : ℕ) : Option ℕ :=
  if pid < maxTasks then
    (List.range mappingsPerTask).find? fun s =>
      (w.maps (pid, s)).any fun m => m.vaddr = vaddr
  else none

/-- `vmo_find_map_slot_containing`: the end of a mapping is computed in 64 bits. -/
def vmoFindMapSlotContaining (pid va : ℕ) : Option ℕ :=
  if pid < maxTasks then
    (List.range mappingsPerTask).find? fun s =>
      (w.maps (pid, s)).any fun m =>
        m.vaddr ≤ va ∧ va < (m.vaddr + m.lenPages * pageSize) % 2 ^ 64
  else none

def protToPteFlags (prot : Prot) : PteFlags where
  writable := prot.write
  user := true
  writeThrough := false
  cacheDisable := false
  nx := !prot.exec

/-- What `vmo_map` has computed before its loop. -/
structure MapArgs where
  vmo : ℕ
  flags : VmoFlags
  pid : ℕ
  cr3 : ℕ
  vaddr : ℕ
  startPage : ℕ
  npages : ℕ
  pteFlags : PteFlags

/-- The address of a page of the range. -/
def MapArgs.virt (a : MapArgs) (p : ℕ) : ℕ := a.vaddr + p * pageSize

/-- The rollback of `vmo_map` over the first `count` pages of the range: they are unmapped,
with `unref` their frames lose a reference, and with `refund` the task gets a page back. -/
def rollback (a : MapArgs) (unref refund : Bool) (count : ℕ) (w : VmoWorld) : VmoWorld :=
  (List.range count).foldl (fun w q =>
    let w := w.unmapPage a.cr3 (a.virt q)
    let w := if unref then w.pageUnref (w.slot a.vmo (a.startPage + q)) else w
    if refund then rlimitAccountFreeMem w a.pid else w) w

/-- The page slot of an on-demand page is filled. The frame is charged to the task; its only
reference is that of the slot. -/
def populateSlot (a : MapArgs) (p : ℕ) (w : VmoWorld) : Except VmoWorld (ℕ × VmoWorld) :=
  let (allowed, w) := rlimitCheckMem w a.pid
  if !allowed then .error (rollback a true true p w) else
  let (page, w) := w.allocPage
  if page = 0 then .error (rollback a true true p (rlimitAccountFreeMem w a.pid)) else
  .ok (page, (w.setSlot a.vmo (a.startPage + p) page).clearIf a.flags.zeroed page)

/-- The entry of a page is installed; a failure rolls `count` pages back. -/
def installPage (a : MapArgs) (p phys : ℕ) (unref : Bool) (count : ℕ) (w : VmoWorld) :
    Except VmoWorld VmoWorld :=
  match w.mapPage a.cr3 (a.virt p) phys a.pteFlags with
  | (true, w) => .ok w
  | (false, w) => .error (rollback a unref false count w)

/-- One page of the loop of `vmo_map`; the error is the state after the rollback. -/
def mapOnePage (a : MapArgs) (p : ℕ) (w : VmoWorld) : Except VmoWorld VmoWorld :=
  let phys := w.slot a.vmo (a.startPage + p)
  if phys ≠ 0 ∧ a.flags.mmio then installPage a p phys false p w
  else if phys = 0 then do
    let (page, w) ← populateSlot a p w
    installPage a p page true (p + 1) w
  else installPage a p phys true (p + 1) (w.pageRef phys)

/-- The pages `p`, …, of the range, `left` of them. -/
def mapLoop (a : MapArgs) : ℕ → ℕ → VmoWorld → Except VmoWorld VmoWorld
  | 0, _, w => .ok w
  | left + 1, p, w => do
    let w ← mapOnePage a p w
    mapLoop a left (p + 1) w

/-- The flags of the entries that `vmo_map` installs. A copy-on-write clone is mapped
read-only at first. -/
def mapPteFlags (flags : VmoFlags) (prot : Prot) : PteFlags :=
  let f := protToPteFlags prot
  let f := if flags.cowChild ∧ prot.write then { f with writable := false } else f
  if flags.mmio then { f with cacheDisable := true, writeThrough := true } else f

/-- `vmo_map`; the address is 0 where it fails. The sum of offset and length is a 64-bit
one. -/
def vmoMap (v pid addrHint offset len : ℕ) (prot : Prot) : ℕ × VmoWorld :=
  match w.vmos v, w.tasks pid with
  | some o, some t =>
    if offset % pageSize ≠ 0 ∨ len % pageSize ≠ 0 ∨ len = 0 then (0, w) else
    if o.sizeBytes < (offset + len) % 2 ^ 64 then (0, w) else
    if !(prot.read || prot.write || prot.exec) then (0, w) else
    match vmoAllocMapSlot w pid with
    | none => (0, w)
    | some s =>
      let vaddr := if addrHint ≠ 0 then addrHint else vmmReserveVaByCr3 w.mmu t.cr3 len
      if vaddr = 0 then (0, w) else
      let npages := len / pageSize
      let a : MapArgs := ⟨v, o.flags, pid, t.cr3, vaddr, offset / pageSize, npages,
        mapPteFlags o.flags prot⟩
      match mapLoop a npages 0 w with
      | .error w => (0, w)
      | .ok w => (vaddr, vmoRef (w.setMap (pid, s) (some ⟨vaddr, v, offset, npages % 2 ^ 32, prot⟩)) v)
  | _, _ => (0, w)

/-- One page of `vmo_unmap`: the entry is cleared, and the frame of the page slot, whichever
it is by now, loses a reference. -/
def unmapOnePage (mmio : Bool) (pid cr3 : ℕ) (m : Mapping) (w : VmoWorld) (p : ℕ) : VmoWorld :=
  let phys := w.slot m.vmo (m.offset / pageSize + p)
  let w := w.unmapPage cr3 (m.vaddr + p * pageSize)
  if phys ≠ 0 ∧ !mmio then rlimitAccountFreeMem (w.pageUnref phys) pid else w

/-- `vmo_unmap`; `false` where it returns `CAP_V2_EINVAL`. -/
def vmoUnmap (pid vaddr len : ℕ) : Bool × VmoWorld :=
  match w.tasks pid with
  | none => (false, w)
  | some t =>
    if vaddr = 0 ∨ vaddr % pageSize ≠ 0 ∨ len % pageSize ≠ 0 then (false, w) else
    match vmoFindMapSlot w pid vaddr with
    | none => (false, w)
    | some s =>
      match w.maps (pid, s) with
      | none => (false, w)
      | some m =>
        if m.lenPages * pageSize ≠ len then (false, w) else
        let mmio := (w.vmos m.vmo).any (·.flags.mmio)
        let w := (List.range m.lenPages).foldl (unmapOnePage mmio pid t.cr3 m) w
        (true, vmoUnref (w.setMap (pid, s) none) m.vmo)

/-- Both clones share the frames of the source and hold a reference on it; `flags` are those
of the clone. -/
def cloneWith (flags : VmoFlags) (w : VmoWorld) (src : ℕ) (o : Vmo) : ℕ × VmoWorld :=
  let child := w.nextId
  let w := { w with nextId := child + 1 }
  let w := (o.pages.filter (· ≠ 0)).foldl VmoWorld.pageRef w
  let w := w.setVmo src (some { o with refcount := (o.refcount + 1) % 2 ^ 32 })
  (child, w.setVmo child (some ⟨flags, o.sizeBytes, 1, some src, o.pages⟩))

/-- A clone whose header or page array cannot be allocated fails; the name is used up when
the array is what fails. -/
def cloneFails (headerOk : Bool) : Option ℕ × VmoWorld :=
  if !headerOk then (none, w) else (none, { w with nextId := w.nextId + 1 })

/-- The entries of a mapping are made read-only. -/
def downgrade (cr3 : ℕ) (m : Mapping) (w : VmoWorld) : VmoWorld :=
  let flagsRo := { protToPteFlags m.prot with writable := false }
  (List.range m.lenPages).foldl (fun w p => w.protectPage cr3 (m.vaddr + p * pageSize) flagsRo) w

/-- The slots of all mapping tables. -/
def mapKeys : List (ℕ × ℕ) := List.range maxTasks ×ˢ List.range mappingsPerTask

/-- Every mapping of the source, in whatever task, is made read-only. -/
def downgradeAll (src : ℕ) (w : VmoWorld) : VmoWorld :=
  mapKeys.foldl (fun w key =>
    match w.maps key, w.tasks key.1 with
    | some m, some t => if m.vmo = src ∧ t.cr3 ≠ 0 then downgrade t.cr3 m w else w
    | _, _ => w) w

def vmoCloneCow (src : ℕ) (headerOk arrayOk : Bool) : Option ℕ × VmoWorld :=
  match w.vmos src with
  | none => (none, w)
  | some o =>
    if !headerOk || !arrayOk then cloneFails w headerOk else
    let (child, w) := cloneWith { o.flags with cowChild := true, zeroed := false } w src o
    (some child, downgradeAll src w)

def vmoCloneShared (src : ℕ) (headerOk arrayOk : Bool) : Option ℕ × VmoWorld :=
  match w.vmos src with
  | none => (none, w)
  | some o =>
    if !headerOk || !arrayOk then cloneFails w headerOk else
    let (child, w) := cloneWith { o.flags with cowChild := false, zeroed := false } w src o
    (some child, w)

/-- The page of an address. -/
def pageBase (va : ℕ) : ℕ := va / pageSize * pageSize

/-- The mapping that the fault handler works on: the task writes as a user to a present page
in a writable mapping of a copy-on-write clone. The second part is the page index. -/
def cowTarget (pid va : ℕ) (user write present : Bool) : Option (Task × Mapping × Vmo × ℕ) :=
  if !(user && write && present) then none else
  match w.tasks pid, vmoFindMapSlotContaining w pid (pageBase va) with
  | some t, some s =>
    match w.maps (pid, s) with
    | none => none
    | some m =>
      if !m.prot.write then none else
      match w.vmos m.vmo with
      | none => none
      | some o =>
        if !o.flags.cowChild then none else
        let i := (m.offset + (pageBase va - m.vaddr)) / pageSize % 2 ^ 32
        if o.pages.getD i 0 = 0 then none else some (t, m, o, i)
  | _, _ => none

/-- `vmo_pf_dispatch`; `true` when the fault is resolved. The private frame takes the place of
the shared one in the page slot and in the entry of the faulting task, and the shared frame
loses one reference. -/
def vmoPfDispatch (pid va : ℕ) (user write present : Bool) : Bool × VmoWorld :=
  match cowTarget w pid va user write present with
  | none => (false, w)
  | some (t, m, o, i) =>
    let oldPhys := o.pages.getD i 0
    let (allowed, w) := rlimitCheckMem w pid
    if !allowed then (false, w) else
    let (newPa, w) := w.allocPage
    if newPa = 0 then (false, rlimitAccountFreeMem w pid) else
    let w := w.setPage (newPa / pageSize) (w.mmu.mem (oldPhys / pageSize))
    let w := (w.unmapPage t.cr3 (pageBase va)).pageUnref oldPhys
    let (_, w) := w.mapPage t.cr3 (pageBase va) newPa (protToPteFlags m.prot)
    (true, w.setSlot m.vmo i newPa)

/-- The entry lets a user task write. -/
def userWritable (pte : Pte) : Bool := pte.flags.user && pte.flags.writable

/-- The byte is stored through the entry. -/
def storeByte (pte : Pte) (va : ℕ) (value : BitVec 8) : VmoWorld :=
  w.setPage pte.frame (Function.update (w.mmu.mem pte.frame) (va % pageSize) value)

/-- A user task stores a byte. A store that the entry does not allow faults, and is tried
again when the handler has resolved the fault; otherwise it does not complete and the task
ends. -/
def userStore (pid va : ℕ) (value : BitVec 8) : Bool × VmoWorld :=
  match w.tasks pid with
  | none => (false, w)
  | some t =>
    match vmmGetPte w.mmu t.cr3 va with
    | none => (false, w)
    | some pte =>
      if userWritable pte then (true, storeByte w pte va value) else
      match vmoPfDispatch w pid va true true true with
      | (false, w) => (false, w)
      | (true, w) =>
        match vmmGetPte w.mmu t.cr3 va with
        | some pte => if userWritable pte then (true, storeByte w pte va value) else (false, w)
        | none => (false, w)

/-- The operations of a run. -/
inductive VmoOp where
  | create (sizeBytes : ℕ) (flags : VmoFlags) (headerOk arrayOk : Bool)
  | map (v pid addrHint offset len : ℕ) (prot : Prot)
  | unmap (pid vaddr len : ℕ)
  | cloneCow (src : ℕ) (headerOk arrayOk : Bool)
  | cloneShared (src : ℕ) (headerOk arrayOk : Bool)
  | fault (pid va : ℕ) (user write present : Bool)
  | store (pid va : ℕ) (value : BitVec 8)
  | unref (v : ℕ)
  | free (v : ℕ)

/-- The state after an operation, and the object that it has created. -/
def perform : VmoOp → Option ℕ × VmoWorld
  | .create sizeBytes flags headerOk arrayOk => vmoCreate w sizeBytes flags headerOk arrayOk
  | .map v pid addrHint offset len prot => (none, (vmoMap w v pid addrHint offset len prot).2)
  | .unmap pid vaddr len => (none, (vmoUnmap w pid vaddr len).2)
  | .cloneCow src headerOk arrayOk => vmoCloneCow w src headerOk arrayOk
  | .cloneShared src headerOk arrayOk => vmoCloneShared w src headerOk arrayOk
  | .fault pid va user write present => (none, (vmoPfDispatch w pid va user write present).2)
  | .store pid va value => (none, (userStore w pid va value).2)
  | .unref v => (none, vmoUnref w v)
  | .free v => (none, vmoFree w v)

end GrahaOS.VmObjects
