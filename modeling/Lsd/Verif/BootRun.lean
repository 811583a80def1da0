import Lsd.Boot.Kmain
import Lsd.Lib.Grants
import Lsd.Verif.CoreHandoff
import Lsd.Verif.ProgramSpace

/-!
# What booting hands out

Every step of booting claims frames that were free, for the tables that it makes
and for the data that it hands out, and keeps what earlier steps were given. After
any number of steps in any order the programs, the stacks of the cores, the
interrupt stacks and the thread-local data lie apart, and a program reaches
nothing but its own frames.
-/

namespace Lsd

open Program Radix Placement

/-- What a step of booting was given. -/
inductive Holding where
  /-- Frames for the thread-local data of a hart, and for its interrupt stack. -/
  | hart (data stack : List UInt64)
  /-- A root table with its tables, and the frames of a stack. -/
  | core (root : UInt64) (tables : Set UInt64) (stack : List UInt64)
  /-- A program and its tables. -/
  | program (loaded : LoadedProgram) (tables : Set UInt64)

/-- The pages that were given. -/
def Holding.pages : Holding → Set UInt64
  | .hart data stack => {frame | frame ∈ data} ∪ {frame | frame ∈ stack}
  | .core _ tables stack => tables ∪ {frame | frame ∈ stack}
  | .program loaded tables => tables ∪ {frame | frame ∈ loaded.frames}

/-- The stacks among them, where the kernel writes as it runs. -/
def Holding.kernelStacks : Holding → Set UInt64
  | .hart _ stack => {frame | frame ∈ stack}
  | .core _ _ stack => {frame | frame ∈ stack}
  | .program _ _ => ∅

/-- Those of them that are not to change: thread-local data and tables. -/
def Holding.fixed : Holding → Set UInt64
  | .hart data _ => {frame | frame ∈ data}
  | .core _ tables _ => tables
  | .program _ tables => tables

/-- The pages that are not to change were given. -/
theorem Holding.fixed_subset (holding : Holding) : holding.fixed ⊆ holding.pages := by
  cases holding with
  | hart | core | program => exact Set.subset_union_left

/-- So were the stacks. -/
theorem Holding.kernelStacks_subset (holding : Holding) : holding.kernelStacks ⊆ holding.pages := by
  cases holding with
  | hart | core => exact Set.subset_union_right
  | program => exact Set.empty_subset _

/-- The first threads of the programs. -/
def Holding.tasks : Holding → List TaskData
  | .program loaded _ => [loaded.task]
  | _ => []

/-- A step of booting, what it returned and what it was given. -/
structure Handed where
  /-- The step. -/
  step : BootStep
  /-- What it returned. -/
  value : BootValue
  /-- What it was given. -/
  holding : Holding

/-- Whether user mode can reach some byte of a page through a table. -/
def UserReaches (hhdm : UInt64) (level : PageLevel) (height : Nat) (root : UInt64) (p : Pmm)
    (page : UInt64) : Prop :=
  ∃ (virt : VirtualAddress) (high : Nat) (entry : PageEntry) (phys offset : UInt64),
    leafOf hhdm p.memory (height + 1) root virt = some (high, entry) ∧ entry.getUser = true ∧
      translate hhdm level root p virt =
        .ok (.ok phys) ∧ offset < 4096 ∧ phys + hhdm = page + offset

/-- A root whose entries lead to trees or nowhere. -/
structure WholeRoot (hhdm : UInt64) (tables : Set UInt64) (height : Nat) (root : UInt64)
    (memory : Memory) : Prop where
  /-- Some entries lead to trees, the others nowhere. -/
  known : ∃ known, Rooted hhdm known tables height root memory ∧
    ∀ index < 512, index ∉ known → PageEntry.getValid (memory (wordOf root index)) = false

section Root

variable {hhdm root : UInt64} {tables : Set UInt64} {height : Nat} {p p' : Pmm} {level : PageLevel}
  {frames : List UInt64}

/-- Where the addresses of a whole root go depends on its tables only. -/
theorem WholeRoot.kept (whole : WholeRoot hhdm tables height root p.memory)
    (at_height : level.asUsize = height + 1) (kept : Kept tables p.memory p'.memory) :
    WholeRoot hhdm tables height root p'.memory ∧ ∀ virt : VirtualAddress,
      leafOf hhdm p'.memory (height + 1) root virt = leafOf hhdm p.memory (height + 1) root virt ∧
        translate hhdm level root p' virt = translate hhdm level root p virt := by
  obtain ⟨known, rooted, nowhere⟩ := whole
  obtain ⟨later, -, walks⟩ := rooted.kept (kept.mono rooted.inUse)
  have invalid : ∀ index < 512, index ∉ known →
      PageEntry.getValid (p'.memory (wordOf root index)) = false := by
    intro index bound unknown
    rw [kept root rooted.member index bound]
    exact nowhere index bound unknown
  refine ⟨⟨known, later, invalid⟩, fun virt => ?_⟩
  by_cases inside : virt.path (height + 1) ∈ known
  · have same := walks virt inside
    refine ⟨same, ?_⟩
    rw [later.translate_known at_height inside, rooted.translate_known at_height inside, same]
  · have before := nowhere _ (virt.path_lt _) inside
    have after := invalid _ (virt.path_lt _) inside
    rw [leafOf_invalid before, leafOf_invalid after, translate_invalid at_height before,
      translate_invalid at_height after]
    exact ⟨rfl, rfl⟩

/-- A table that is confined to some pages reaches no other page. -/
theorem Confined.reaches (confined : Confined hhdm level height root p frames)
    (framesAligned : ∀ frame ∈ frames, frame % 4096 = 0) {page : UInt64} (aligned : page % 4096 = 0)
    (reached : UserReaches hhdm level height root p page) : page ∈ frames := by
  obtain ⟨virt, high, entry, phys, offset, leaf, user, goes, small, place⟩ := reached
  obtain ⟨frame, member, own⟩ := confined virt high entry leaf user
  have same : phys = frame - hhdm + virt % 4096 :=
    Except.ok.inj (Except.ok.inj (goes.symm.trans own))
  have sum : frame + virt % 4096 = page + offset := by
    rw [← place, same, sub_add_place, UInt64.sub_add_cancel]
  -- both are the address of a page and an offset in it
  have first := aligned_toNat (framesAligned frame member)
  have second := aligned_toNat aligned
  have numbers := congrArg UInt64.toNat sum
  rw [UInt64.toNat_add, UInt64.toNat_add, UInt64.toNat_mod] at numbers
  rw [UInt64.lt_iff_toNat_lt] at small
  change _ < 4096 at small
  change (_ + _ % 4096) % _ = _ at numbers
  have frameBound := frame.toNat_lt
  have pageBound := page.toNat_lt
  have equal : frame = page := by
    apply UInt64.toNat_inj.mp
    omega
  exact equal ▸ member

end Root

variable {V : Type} {platform : Platform V} {loader : Loader V} {height extra : Nat}
  {pages : Set UInt64} {nodes : List UInt64} {s s' : Machine V}

/-- A state in which booting goes on: the kernel's half of the current table leads to trees, and the
frames of the list are free, hold no entries and are enough. -/
structure BootReady (platform : Platform V) (height : Nat) (pages : Set UInt64)
    (nodes : List UInt64)
    (extra : Nat) (s : Machine V) : Prop where
  /-- The direct map begins at a page. -/
  mapAligned : platform.hhdmOffset % 4096 = 0
  /-- The tables have this many levels below the root. -/
  levels : (PageLevel.fromUsize platform.levels).asUsize = height + 1
  /-- A stack is mapped below the root. -/
  tall : 2 ≤ height
  /-- The kernel's half of the current table leads to trees in use. -/
  kernel : Rooted platform.hhdmOffset upperHalf pages height
    (currentTable platform.hhdmOffset s.satp) s.pmm.memory
  /-- The frames of the list are free. -/
  stock : Stock platform.hhdmOffset pages s.pmm nodes
  /-- There are enough of them. -/
  enough : extra < nodes.length
  /-- They hold no entries. -/
  clean : CleanFrames nodes s.pmm.memory

/-- The frames that a step of booting may take, when a root takes some number. -/
def BootStep.cost (loader : Loader V) (height rootFrames : Nat) : BootStep → Nat
  | .hart tdata _ _ => (tlsFrames (UInt64.ofNat tdata.length)).toNat + 0x20
  | .core => rootFrames + 0x80
  | .program bytes => rootFrames + ((match loader.minimalParse bytes with
      | .ok elf => imageCost height (elf.segments.getD [])
      | .error _ => 0) + stackCost height)

/-- Whether a step of booting is one that the kernel can take: thread-local data has a size, with a
word of it for `HART_ID`, and the loader can follow a program. -/
def BootStep.Followed (loader : Loader V) : BootStep → Prop
  | .hart tdata hartIdOffset _ =>
    tdata.length < 2 ^ 64 ∧ hartIdOffset % 8 = 0 ∧ hartIdOffset + 8 ≤ tdata.length
  | .program bytes => ∀ elf table, loader.minimalParse bytes = .ok elf → elf.segments = some table →
      Lsd.Followed table
  | _ => True

/-- The words of a page. -/
def pageWords (s : Machine V) (page : UInt64) : Fin 512 → UInt64 := fun index =>
  s.pmm.memory (wordOf page index)

/-- Pages have the same words when they keep them. -/
theorem pageWords_eq {kept : Set UInt64} : Kept kept s.pmm.memory s'.pmm.memory ↔
    ∀ page ∈ kept, pageWords s' page = pageWords s page := by
  constructor
  · exact fun same page member => funext fun index => same page member index index.isLt
  · exact fun same page member index bound => congrFun (same page member) ⟨index, bound⟩

/-- The thread-local data of a hart: the image of the kernel, but for the word of `HART_ID`, which
is the number of the hart. -/
structure HartData (tlsBase : UInt64) (tdata : List UInt8) (hartIdOffset : Nat) (hartId : UInt64)
    (memory : Memory) : Prop where
  /-- `HART_ID` is a word. -/
  word : hartIdOffset % 8 = 0
  /-- It lies in the image. -/
  inside : hartIdOffset + 8 ≤ tdata.length
  /-- The image. -/
  image : ∀ offset < tdata.length, offset < hartIdOffset ∨ hartIdOffset + 8 ≤ offset →
    byteAt memory (tlsBase + UInt64.ofNat offset) = tdata.getD offset 0
  /-- The number of the hart. -/
  hartId : memory (tlsBase + UInt64.ofNat hartIdOffset) = hartId

/-- The word of a hart in its thread-local data. -/
theorem hartId_place {tlsBase : UInt64} {hartIdOffset count : Nat} (aligned : tlsBase % 4096 = 0)
    (word : hartIdOffset % 8 = 0) (bound : hartIdOffset < count * 4096) :
    InPages {frame | frame ∈ framesFrom tlsBase count} (tlsBase + UInt64.ofNat hartIdOffset) := by
  have inside := byte_inPages aligned bound
  have even : (tlsBase + UInt64.ofNat hartIdOffset) % 8 = 0 := by
    have start := aligned_toNat aligned
    apply UInt64.toNat_inj.mp
    rw [UInt64.toNat_mod, UInt64.toNat_add, UInt64.toNat_ofNat']
    change _ % 8 = 0
    omega
  rwa [even, UInt64.sub_zero] at inside

/-- A store to the word of a hart changes no other byte of the image. -/
theorem byteAt_hartId {tlsBase hartId : UInt64} {hartIdOffset offset : Nat} {memory : Memory}
    (aligned : tlsBase % 4096 = 0) (word : hartIdOffset % 8 = 0) (short : hartIdOffset + 8 < 2 ^ 64)
    (small : offset < 2 ^ 64) (other : offset < hartIdOffset ∨ hartIdOffset + 8 ≤ offset) :
    byteAt (memory.store (tlsBase + UInt64.ofNat hartIdOffset) hartId)
        (tlsBase + UInt64.ofNat offset) = byteAt memory (tlsBase + UInt64.ofNat offset) := by
  apply byteAt_congr
  refine Function.update_of_ne (fun same => ?_) _ _
  have start := aligned_toNat aligned
  have numbers := congrArg UInt64.toNat same
  have low : (tlsBase + UInt64.ofNat offset) % 8 ≤ tlsBase + UInt64.ofNat offset := by
    rw [UInt64.le_iff_toNat_le, UInt64.toNat_mod]
    exact Nat.mod_le _ _
  rw [UInt64.toNat_sub_of_le _ _ low, UInt64.toNat_mod, UInt64.toNat_add, UInt64.toNat_add,
    UInt64.toNat_ofNat', UInt64.toNat_ofNat'] at numbers
  change _ - _ % 8 = _ at numbers
  have bound := tlsBase.toNat_lt
  omega

/-- Thread-local data is kept with its frames. -/
theorem HartData.kept {tlsBase hartId : UInt64} {tdata : List UInt8} {hartIdOffset count : Nat}
    {old new : Memory} (data : HartData tlsBase tdata hartIdOffset hartId old)
    (aligned : tlsBase % 4096 = 0) (fits : tdata.length ≤ count * 4096)
    (kept : Kept {frame | frame ∈ framesFrom tlsBase count} old new) :
    HartData tlsBase tdata hartIdOffset hartId new where
  word := data.word
  inside := data.inside
  image := by
    intro offset bound other
    rw [← data.image offset bound other]
    exact kept.byteAt (fun _ member => member) aligned (bound.trans_le fits)
  hartId := by
    have bound : hartIdOffset < count * 4096 := by
      have := data.inside
      omega
    obtain ⟨frame, member, index, small, place⟩ := hartId_place aligned data.word bound
    rw [place, kept frame member index small, ← place]
    exact data.hartId

/-- What a step of booting has established. -/
def Handed.Right (platform : Platform V) (height : Nat) (start : Machine V) (handed : Handed)
    (s : Machine V) : Prop :=
  match handed.step, handed.value, handed.holding with
  | .hart tdata hartIdOffset hartId, .hart tlsBase intStackTop, .hart data stack =>
    data = framesFrom tlsBase (tlsFrames (UInt64.ofNat tdata.length)).toNat ∧ tlsBase % 4096 = 0 ∧
      tdata.length ≤ (tlsFrames (UInt64.ofNat tdata.length)).toNat * 4096 ∧
      stack = framesFrom (intStackTop - 0x20 * 0x1000) 0x20 ∧ (∀ frame ∈ stack, frame ∉ data) ∧
      HartData tlsBase tdata hartIdOffset hartId s.pmm.memory
  | .core, .core satp sp, .core root tables stack =>
    currentTable platform.hhdmOffset satp = root ∧ stack = framesFrom sp 0x80 ∧
      (∀ frame ∈ stack, frame ∉ tables) ∧
      Rooted platform.hhdmOffset upperHalf tables height root s.pmm.memory ∧
      ∀ virt : VirtualAddress, 256 ≤ virt.path (height + 1) →
        leafOf platform.hhdmOffset s.pmm.memory (height + 1) root virt =
          leafOf platform.hhdmOffset start.pmm.memory (height + 1)
            (currentTable platform.hhdmOffset start.satp) virt
  | .program bytes, .program id, .program loaded tables =>
    WholeRoot platform.hhdmOffset tables height (loaded.root platform.hhdmOffset) s.pmm.memory ∧
      (∃ pages nodes elf table before after extra,
        LoadedAs platform height extra pages nodes bytes elf table before id after loaded ∧
        ∀ virt : VirtualAddress,
          leafOf platform.hhdmOffset s.pmm.memory (height + 1)
            (loaded.root platform.hhdmOffset) virt =
            leafOf platform.hhdmOffset after.pmm.memory (height + 1)
              (loaded.root platform.hhdmOffset) virt) ∧
      (∀ frame ∈ loaded.frames, frame % 4096 = 0 ∧ frame ∉ tables) ∧
      Confined platform.hhdmOffset (.fromUsize platform.levels) height
        (loaded.root platform.hhdmOffset) s.pmm loaded.frames
  | _, _, _ => False

/-- What was established depends on the pages that are not to change only. -/
theorem Handed.right_kept {start : Machine V} {handed : Handed}
    (levels : (PageLevel.fromUsize platform.levels).asUsize = height + 1)
    (kept : Kept handed.holding.fixed s.pmm.memory s'.pmm.memory)
    (right : handed.Right platform height start s) : handed.Right platform height start s' := by
  obtain ⟨step, value, holding⟩ := handed
  cases step with
  | hart tdata hartIdOffset hartId =>
    cases value with
    | hart tlsBase intStackTop =>
      cases holding with
      | hart data stack =>
        obtain ⟨rfl, aligned, fits, stacked, apart, content⟩ := right
        exact ⟨rfl, aligned, fits, stacked, apart, content.kept aligned fits kept⟩
      | core | program => exact right.elim
    | core | program => exact right.elim
  | core =>
    cases value with
    | core satp sp =>
      cases holding with
      | core root tables stack =>
        obtain ⟨leads, frames, apart, rooted, leaf⟩ := right
        have inside := kept.mono rooted.inUse
        obtain ⟨later, -, walks⟩ := rooted.kept inside
        exact ⟨leads, frames, apart, later, fun virt above =>
          (walks virt ⟨above, virt.path_lt _⟩).trans (leaf virt above)⟩
      | hart | program => exact right.elim
    | hart | program => exact right.elim
  | program bytes =>
    cases value with
    | program id =>
      cases holding with
      | program loaded tables =>
        obtain ⟨whole, ⟨pages, nodes, elf, table, before, after, extra, made, leaf⟩, frames,
          confined⟩ := right
        obtain ⟨later, same⟩ := whole.kept levels kept
        refine ⟨later, ⟨pages, nodes, elf, table, before, after, extra, made, fun virt =>
          (same virt).1.trans (leaf virt)⟩, frames, ?_⟩
        intro virt high entry found user
        rw [(same virt).1] at found
        rw [(same virt).2]
        exact confined virt high entry found user
      | hart | core => exact right.elim
    | hart | core => exact right.elim

/-- The kernel's half of the current table is what it was when booting began. -/
structure BootFrom (platform : Platform V) (height : Nat) (start s : Machine V) : Prop where
  /-- The same table is in use. -/
  satp : s.satp = start.satp
  /-- Its upper half goes where it went. -/
  leaf : ∀ virt : VirtualAddress, 256 ≤ virt.path (height + 1) →
    leafOf platform.hhdmOffset s.pmm.memory (height + 1)
        (currentTable platform.hhdmOffset s.satp) virt =
      leafOf platform.hhdmOffset start.pmm.memory (height + 1)
        (currentTable platform.hhdmOffset start.satp) virt
  /-- A copy of it takes as many frames. -/
  cost : rootCost platform.hhdmOffset height s = rootCost platform.hhdmOffset height start

section Later

variable {start : Machine V} {used : Set UInt64} {left : List UInt64} {count : Nat}

/-- Booting goes on in a state that keeps the pages in use. -/
theorem BootReady.later (ready : BootReady platform height pages nodes count s)
    (from_start : BootFrom platform height start s) (same : s'.satp = s.satp)
    (kept : Kept pages s.pmm.memory s'.pmm.memory) (grown : pages ⊆ used)
    (stock : Stock platform.hhdmOffset used s'.pmm left) (enough : extra < left.length)
    (given : left ⊆ nodes) (data : ∀ node ∈ left, ∀ index, 2 ≤ index → index < 512 →
      s'.pmm.memory (wordOf node index) = s.pmm.memory (wordOf node index)) :
    BootReady platform height used left extra s' ∧ BootFrom platform height start s' := by
  obtain ⟨rooted, -, walks⟩ := ready.kernel.kept (kept.mono ready.kernel.inUse)
  constructor
  · constructor
    case mapAligned => exact ready.mapAligned
    case levels => exact ready.levels
    case tall => exact ready.tall
    case kernel => exact same ▸ rooted.mono grown
    case stock => exact stock
    case enough => exact enough
    case clean =>
      intro node member index first small
      rw [data node member index first small]
      exact ready.clean node (given member) index first small
  · constructor
    case satp => exact same.trans from_start.satp
    case leaf =>
      intro virt above
      rw [same, walks virt ⟨above, virt.path_lt _⟩]
      exact from_start.leaf virt above
    case cost =>
      rw [← from_start.cost, rootCost, rootCost, same]
      have inside : ∀ index ∈ List.range' 256 (512 - 256), index ∈ upperHalf :=
        fun index member => upperHalf_range ▸ member
      refine congrArg (· + 1)
        (Agree.branches_eq (fun index member => (inside index member).2) ?_ ?_)
      · exact fun index member =>
          kept.agree _ ready.kernel.member index (inside index member).2
      · exact fun index member => kept.agree.mono (ready.kernel.reachedInUse (inside index member))

/-- The frames of a ready state. -/
theorem BootReady.stocked (ready : BootReady platform height pages nodes count s) :
    StockedFrom platform.hhdmOffset nodes s.pmm.memory count pages s.pmm :=
  ⟨nodes, ready.stock, ready.enough, fun _ member => member, fun _ _ _ => rfl⟩

/-- The frames of the list begin at pages. -/
theorem BootReady.nodesAligned (ready : BootReady platform height pages nodes count s) :
    ∀ node ∈ nodes, node % 4096 = 0 :=
      fun node member => (ready.stock.holds.frames node member).aligned

/-- What a step of booting makes of the state. -/
structure BootStepped (platform : Platform V) (height : Nat) (start s s' : Machine V)
    (pages used : Set UInt64) (left : List UInt64) (extra : Nat) (handed : Handed) : Prop where
  /-- Pages were granted. -/
  granted : Grants.Step pageWords pages s handed.holding.pages used s'
  /-- What was asked for was established. -/
  right : handed.Right platform height start s'
  /-- Booting can go on. -/
  ready : BootReady platform height used left extra s'
  /-- The kernel's half is as it was. -/
  origin : BootFrom platform height start s'
  /-- The first thread of a program is the last of the queue. -/
  queued : s'.tasks.queue = s.tasks.queue ++ handed.holding.tasks

section Regions

variable {hhdm base top : UInt64} {tdata : List UInt8} {p p' : Pmm} {satp satp' : Satp}
  {sp : UInt64}

/-- What `init_tls` does to the frame list and to memory. -/
theorem initTls_eq_ok (short : tdata.length < 2 ^ 64)
    (ran : (initTls hhdm tdata).run p = (.ok base, p')) :
    ∃ middle, (FreeList.claimContinuous hhdm (tlsFrames (UInt64.ofNat tdata.length))).run p =
        (.ok (.ok base), middle) ∧ p'.regionList = middle.regionList ∧
      Written base (fun offset => tdata.getD offset 0) tdata.length middle.memory p'.memory := by
  obtain ⟨result, middle, claim, afterClaim⟩ := Prog.run_bind_eq_ok ran
  obtain ⟨found, _, unwrapped, afterUnwrap⟩ := Prog.run_bind_eq_ok afterClaim
  obtain ⟨rfl, same⟩ := Machine.unwrap_eq_ok unwrapped
  rw [same] at afterUnwrap
  obtain ⟨⟨⟩, _, loop, last⟩ := Prog.run_bind_eq_ok afterUnwrap
  obtain ⟨base_eq, rfl⟩ := Prod.mk.inj last
  obtain rfl := Except.ok.inj base_eq
  have written := storeLoop_written (Nat.le_of_lt short) loop fun offset bound before after round =>
    (Prod.mk.inj round).2.symm
  exact ⟨middle, claim, written⟩

/-- What the interrupt stack takes. -/
theorem intStack_eq_ok (ran : (intStack hhdm).run p = (.ok top, p')) :
    (FreeList.claimContinuous hhdm 0x20).run p = (.ok (.ok (top - 0x20 * 0x1000)), p') := by
  obtain ⟨result, middle, claim, afterClaim⟩ := Prog.run_bind_eq_ok ran
  obtain ⟨base, _, unwrapped, last⟩ := Prog.run_bind_eq_ok afterClaim
  obtain ⟨rfl, same⟩ := Machine.unwrap_eq_ok unwrapped
  rw [same] at last
  obtain ⟨top_eq, rfl⟩ := Prod.mk.inj last
  rw [← Except.ok.inj top_eq, UInt64.add_sub_cancel]
  exact claim

/-- What a hart takes and stores for itself. -/
theorem initHart_eq_ok {hartIdOffset : Nat} {hartId : UInt64} {made : UInt64 × UInt64}
    (ran : (initHart hhdm tdata hartIdOffset hartId).run p = (.ok made, p')) :
    ∃ middle later, (initTls hhdm tdata).run p = (.ok made.1, middle) ∧
      (intStack hhdm).run middle = (.ok made.2, later) ∧ p' = { later with
        memory := later.memory.store (made.1 + UInt64.ofNat hartIdOffset) hartId } := by
  obtain ⟨tlsBase, middle, local', afterLocal⟩ := Prog.run_bind_eq_ok ran
  obtain ⟨top, later, stack, afterStack⟩ := Prog.run_bind_eq_ok afterLocal
  obtain ⟨made_eq, rfl⟩ := Prod.mk.inj afterStack
  obtain rfl := Except.ok.inj made_eq
  exact ⟨middle, later, local', stack, rfl⟩

/-- What a round of `smp_init` takes. -/
theorem startCore_eq_ok (ran : (startCore hhdm satp).run p = (.ok (satp', sp), p')) :
    ∃ root middle, (newWithUpperhalf hhdm satp).run p = (.ok root, middle) ∧
      (FreeList.claimContinuous hhdm 0x80).run middle = (.ok (.ok sp), p') ∧
        satp' = coreSatp hhdm satp root := by
  obtain ⟨root, middle, made, afterRoot⟩ := Prog.run_bind_eq_ok ran
  obtain ⟨result, last, claim, afterClaim⟩ := Prog.run_bind_eq_ok afterRoot
  obtain ⟨stack, _, unwrapped, end_eq⟩ := Prog.run_bind_eq_ok afterClaim
  obtain ⟨rfl, same⟩ := Machine.unwrap_eq_ok unwrapped
  rw [same] at end_eq
  obtain ⟨pair, rfl⟩ := Prod.mk.inj end_eq
  obtain ⟨rfl, rfl⟩ := Prod.mk.inj (Except.ok.inj pair)
  exact ⟨root, middle, made, claim, rfl⟩

end Regions

/-- A claim of frames for the kernel. -/
theorem BootReady.region {frames base : UInt64} {p : Pmm}
    (ready : BootReady platform height pages nodes (frames.toNat + extra) s)
    (ran : (FreeList.claimContinuous platform.hhdmOffset frames).run s.pmm = (.ok (.ok base), p)) :
    StockedFrom platform.hhdmOffset nodes s.pmm.memory extra
        (pages ∪ {frame | frame ∈ framesFrom base frames.toNat}) p ∧
      Kept pages s.pmm.memory p.memory ∧
      Disjoint pages {frame | frame ∈ framesFrom base frames.toNat} ∧ base % 4096 = 0 := by
  obtain ⟨supplies, kept, fresh, -, aligned, -⟩ := ready.stocked.claimWindow ran
  exact ⟨supplies, kept, Set.disjoint_left.mpr fun page old new => (fresh page new).1.outside old,
    aligned⟩

/-- A step that claims a region for the kernel. -/
theorem BootReady.granted {frames : Set UInt64}
    (ready : BootReady platform height pages nodes count s)
    (origin : BootFrom platform height start s) (same : s' = { s with pmm := s'.pmm })
    {handed : Handed} (noTasks : handed.holding.tasks = [])
    (right : handed.Right platform height start s') (given : handed.holding.pages = frames)
    (supplies : StockedFrom platform.hhdmOffset nodes s.pmm.memory extra (pages ∪ frames) s'.pmm)
    (kept : Kept pages s.pmm.memory s'.pmm.memory) (fresh : Disjoint pages frames) :
    ∃ left, BootStepped platform height start s s' pages (pages ∪ frames) left extra handed := by
  obtain ⟨left, stock, enough, inside, data⟩ := supplies.left ready.nodesAligned
  obtain ⟨later, from_start⟩ := ready.later origin (congrArg (·.satp) same) kept
    Set.subset_union_left stock enough inside data
  refine ⟨left, ⟨?_, Set.subset_union_left, ?_, pageWords_eq.mp kept⟩, right, later, from_start, ?_⟩
  · rwa [given]
  · rw [given]
    exact Set.subset_union_right
  · rw [noTasks, List.append_nil]
    exact congrArg (·.tasks.queue) same

/-- A step of booting that works on memory only. -/
theorem onPmm_step {α : Type} {program : Kernel Pmm α} {wrap : α → BootValue} {value : BootValue}
    (ran : (onPmm program >>= fun found => pure (wrap found)).run s = (.ok value, s')) :
    ∃ found, program.run s.pmm = (.ok found, s'.pmm) ∧ s' = { s with pmm := s'.pmm } ∧
      value = wrap found := by
  obtain ⟨found, first, made, last⟩ := Prog.run_bind_eq_ok ran
  obtain ⟨inner, same⟩ := Machine.onPmm_eq_ok made
  obtain ⟨value_eq, last_eq⟩ := Prod.mk.inj last
  rw [← last_eq]
  exact ⟨found, inner, same, (Except.ok.inj value_eq).symm⟩

/-- The frames for thread-local data have room for it. -/
theorem tlsFrames_fits {length : Nat} (short : length < 2 ^ 64) :
    length ≤ (tlsFrames (UInt64.ofNat length)).toNat * 4096 := by
  have size : (UInt64.ofNat length).toNat = length := by
    rw [UInt64.toNat_ofNat', Nat.mod_eq_of_lt short]
  have low : (UInt64.ofNat length &&& 0xfff).toNat = length % 4096 := by
    have mask : (0xfff : UInt64).toNat = 2 ^ 12 - 1 := rfl
    rw [UInt64.toNat_and, mask, Nat.and_two_pow_sub_one_eq_mod, size]
  have whole : (UInt64.ofNat length / 4096).toNat = length / 4096 := by
    rw [UInt64.toNat_div, size]
    rfl
  rw [tlsFrames, UInt64.toNat_add, whole]
  split
  · change _ ≤ (_ + 1) % _ * 4096
    omega
  · next even =>
    have zero : length % 4096 = 0 := by
      rw [← low, not_not.mp even]
      rfl
    change _ ≤ (_ + 0) % _ * 4096
    omega

/-- Bytes that were written to a run of frames changed no other page. -/
theorem Written.within {base : UInt64} {content : Nat → UInt8} {length frames : Nat}
    {old new : Memory} (written : Written base content length old new) (aligned : base % 4096 = 0)
    (fits : length ≤ frames * 4096) :
    ChangedWithin {frame | frame ∈ framesFrom base frames} old new := by
  intro address outside
  refine written.words address fun offset bound place => outside ?_
  rw [place]
  exact byte_inPages aligned (bound.trans_le fits)

/-- Thread-local data and an interrupt stack are given to a hart. -/
theorem BootReady.hart {tdata : List UInt8} {hartIdOffset : Nat} {hartId : UInt64}
    {value : BootValue}
    (followed : (BootStep.hart tdata hartIdOffset hartId).Followed loader)
    (ready : BootReady platform height pages nodes
      ((tlsFrames (UInt64.ofNat tdata.length)).toNat + (0x20 + extra)) s)
    (origin : BootFrom platform height start s)
    (ran : (bootStep platform loader (.hart tdata hartIdOffset hartId)).run s = (.ok value, s')) :
    ∃ handed used left, handed.step = .hart tdata hartIdOffset hartId ∧ handed.value = value ∧
      BootStepped platform height start s s' pages used left extra handed := by
  obtain ⟨short, word, inside⟩ := followed
  obtain ⟨⟨base, top⟩, inner, same, rfl⟩ := onPmm_step ran
  obtain ⟨filled, last, copied, stacked, stored⟩ := initHart_eq_ok inner
  obtain ⟨middle, claim, list, written⟩ := initTls_eq_ok short copied
  obtain ⟨supplies, kept, fresh, aligned⟩ := ready.region claim
  have fits := tlsFrames_fits short
  let data : Set UInt64 :=
    {frame | frame ∈ framesFrom base (tlsFrames (UInt64.ofNat tdata.length)).toNat}
  let stack : Set UInt64 := {frame | frame ∈ framesFrom (top - 0x20 * 0x1000) 0x20}
  have dataAligned : ∀ frame ∈ data, frame % 4096 = 0 := by
    obtain ⟨left, stock, -⟩ := supplies
    exact fun frame member => stock.pagesAligned frame (.inr member)
  -- the image is copied into its frames
  have filling : ChangedWithin data middle.memory filled.memory := written.within aligned fits
  have filled_eq : { middle with memory := filled.memory } = filled := by
    rw [← list]
  have source := stockedFrom_source platform.hhdmOffset nodes s.pmm.memory
  have stocked := source.write supplies (filling.mono Set.subset_union_right)
  rw [filled_eq] at stocked
  -- the stack is claimed, and the number of the hart stored
  obtain ⟨supplies', kept', fresh', -⟩ : StockedFrom platform.hhdmOffset nodes s.pmm.memory extra
        (pages ∪ data ∪ stack) last ∧ Kept (pages ∪ data) filled.memory last.memory ∧
      (∀ frame ∈ framesFrom (top - 0x20 * 0x1000) 0x20, FreshFrame platform.hhdmOffset
        (pages ∪ data) frame ∧ frame ∈ nodes) ∧ _ :=
    StockedFrom.claimWindow stocked (intStack_eq_ok stacked)
  have naming : ChangedWithin data last.memory s'.pmm.memory := by
    rw [stored]
    intro address outside
    refine Function.update_of_ne (fun place => outside ?_) _ _
    rw [place]
    exact hartId_place aligned word (by omega)
  have last_eq : { last with memory := s'.pmm.memory } = s'.pmm := by
    rw [stored]
  have parts : pages ∪ data ∪ stack = pages ∪ (data ∪ stack) := Set.union_assoc _ _ _
  have latest := source.write supplies'
    (naming.mono (Set.subset_union_right.trans Set.subset_union_left))
  rw [last_eq, parts] at latest
  have outside : ∀ page ∈ pages, page % 4096 = 0 ∧ page ∉ data := fun page member =>
    ⟨ready.stock.pagesAligned page member, Set.disjoint_left.mp fresh member⟩
  have still : Kept pages s.pmm.memory s'.pmm.memory := by
    refine ((kept.trans fun page member index small => ?_).trans
      (kept'.mono Set.subset_union_left)).trans fun page member index small => ?_
    · exact filling.word dataAligned (outside page member).1 small (outside page member).2
    · exact naming.word dataAligned (outside page member).1 small (outside page member).2
  have unused : Disjoint pages (data ∪ stack) := by
    refine Set.disjoint_union_right.mpr ⟨fresh, Set.disjoint_left.mpr fun page old new => ?_⟩
    exact (fresh' page new).1.outside (.inl old)
  have content : HartData base tdata hartIdOffset hartId s'.pmm.memory := by
    constructor
    case word => exact word
    case inside => exact inside
    case image =>
      intro offset bound other
      rw [stored, byteAt_hartId aligned word (by omega) (by omega) other]
      have member : ∀ frame ∈ framesFrom base (tlsFrames (UInt64.ofNat tdata.length)).toNat,
          frame ∈ pages ∪ data := fun frame member => .inr member
      rw [kept'.byteAt member aligned (bound.trans_le fits)]
      exact written.bytes offset bound
    case hartId =>
      rw [stored]
      exact Function.update_self _ _ _
  let handed : Handed := ⟨.hart tdata hartIdOffset hartId, .hart base top,
    .hart (framesFrom base (tlsFrames (UInt64.ofNat tdata.length)).toNat)
      (framesFrom (top - 0x20 * 0x1000) 0x20)⟩
  have right : handed.Right platform height start s' :=
    ⟨rfl, aligned, fits, rfl, fun frame member inData =>
      (fresh' frame member).1.outside (.inr inData),
      content⟩
  obtain ⟨left, stepped⟩ := ready.granted origin same rfl right rfl latest still unused
  exact ⟨handed, _, left, rfl, rfl, stepped⟩

/-- A root table and a stack are given to a core. -/
theorem BootReady.core {value : BootValue}
    (ready : BootReady platform height pages nodes
      (rootCost platform.hhdmOffset height s + 0x80 + extra) s)
    (origin : BootFrom platform height start s)
    (ran : (bootStep platform loader .core).run s = (.ok value, s')) :
    ∃ handed used left, handed.step = .core ∧ handed.value = value ∧
      BootStepped platform height start s s' pages used left extra handed := by
  rw [bootStep, Prog.run_bind_ok (Prog.run_read _ _)] at ran
  obtain ⟨⟨satp, sp⟩, inner, same, rfl⟩ := onPmm_step ran
  obtain ⟨root, middle, made, claim, rfl⟩ := startCore_eq_ok inner
  have short : height + 1 ≤ 5 := ready.levels ▸ PageLevel.asUsize_le _
  have several : 1 < nodes.length := by
    have enough := ready.enough
    rw [rootCost] at enough
    omega
  have source := stockedFrom_source platform.hhdmOffset nodes s.pmm.memory
  have supplied := ready.stocked
  rw [rootCost, Nat.add_assoc _ 0x80 extra] at supplied
  obtain ⟨newRoot, later, tables, cloned, outcome⟩ :=
    newWithUpperhalf_spec source ready.mapAligned short ready.kernel ready.stock several supplied
  obtain ⟨root_eq, rfl⟩ := Prod.mk.inj (cloned.symm.trans made)
  obtain rfl := Except.ok.inj root_eq
  obtain ⟨supplies, kept, fresh, -⟩ : StockedFrom platform.hhdmOffset nodes s.pmm.memory extra
        (insert newRoot pages ∪ tables ∪ {frame | frame ∈ framesFrom sp 0x80}) s'.pmm ∧
      Kept (insert newRoot pages ∪ tables) later.memory s'.pmm.memory ∧
      (∀ frame ∈ framesFrom sp 0x80, FreshFrame platform.hhdmOffset
        (insert newRoot pages ∪ tables) frame ∧ frame ∈ nodes) ∧ _ :=
    StockedFrom.claimWindow outcome.supplies claim
  have parts : insert newRoot pages ∪ tables ∪ {frame | frame ∈ framesFrom sp 0x80} =
      pages ∪ (insert newRoot tables ∪ {frame | frame ∈ framesFrom sp 0x80}) := by
    ext page
    simp only [Set.mem_union, Set.mem_insert_iff]
    tauto
  rw [parts] at supplies
  have used : pages ⊆ insert newRoot pages ∪ tables :=
    (Set.subset_insert newRoot pages).trans Set.subset_union_left
  have unused : Disjoint pages (insert newRoot tables ∪ {frame | frame ∈ framesFrom sp 0x80}) := by
    refine Set.disjoint_left.mpr fun page old new => ?_
    rcases new with (rfl | table) | stack
    · exact outcome.frame.outside old
    · exact Set.disjoint_left.mp outcome.unused table (.inr old)
    · exact (fresh page stack).1.outside (used old)
  have inside : insert newRoot tables ⊆ insert newRoot pages ∪ tables :=
    Set.insert_subset (.inl (Set.mem_insert newRoot pages)) Set.subset_union_right
  obtain ⟨rooted, -, walks⟩ := outcome.rooted.kept (kept.mono (outcome.rooted.inUse.trans inside))
  let handed : Handed := ⟨.core, .core (coreSatp platform.hhdmOffset s.satp newRoot) sp,
    .core newRoot (insert newRoot tables) (framesFrom sp 0x80)⟩
  have right : handed.Right platform height start s' := by
    refine ⟨Smp.currentTable_coreSatp ready.mapAligned outcome.frame.aligned
      outcome.frame.short, rfl,
      fun frame member table => (fresh frame member).1.outside (inside table), rooted,
      fun virt above => ?_⟩
    have upper : virt.path (height + 1) ∈ upperHalf := ⟨above, virt.path_lt _⟩
    exact ((walks virt upper).trans (outcome.copied virt upper)).trans (origin.leaf virt above)
  obtain ⟨left, stepped⟩ := ready.granted origin same rfl right rfl supplies
    (outcome.kept.trans (kept.mono used)) unused
  exact ⟨handed, _, left, rfl, rfl, stepped⟩

/-- A program is loaded. -/
theorem BootReady.program {bytes : List UInt8} {value : BootValue}
    {spans : V → UInt64 → List (UInt64 × UInt64)} (served : SpanArenas loader platform.vmem spans)
    (wide : platform.hhdmOffset % 0x200000 = 0)
    (closed : KernelClosed platform.hhdmOffset height (currentTable platform.hhdmOffset start.satp)
      start.pmm.memory)
    (followed : (BootStep.program bytes).Followed loader)
    (ready : BootReady platform height pages nodes
      ((BootStep.program bytes).cost loader height
        (rootCost platform.hhdmOffset height s) + extra) s)
    (origin : BootFrom platform height start s)
    (ran : (bootStep platform loader (.program bytes)).run s = (.ok value, s')) :
    ∃ handed used left, handed.step = .program bytes ∧ handed.value = value ∧
      BootStepped platform height start s s' pages used left extra handed := by
  obtain ⟨id, after, loaded, last⟩ := Prog.run_bind_eq_ok ran
  obtain ⟨value_eq, last_eq⟩ := Prod.mk.inj last
  rw [last_eq] at loaded
  obtain rfl := Except.ok.inj value_eq
  obtain ⟨elf, table, _, _, _, _, _, _, _, parts⟩ := load_eq_ok served loaded
  obtain ⟨parsed, listed⟩ := parts.parsed
  have enough : rootCost platform.hhdmOffset height s +
      (imageCost height table + (stackCost height + extra)) < nodes.length := by
    have total := ready.enough
    rw [BootStep.cost, parsed] at total
    simp only [listed, Option.getD_some] at total
    omega
  have frames : nodes ≠ [] := List.ne_nil_of_length_pos (Nat.zero_lt_of_lt enough)
  have loadReady : LoadReady platform height pages nodes s :=
    ⟨ready.mapAligned, ready.levels, ready.tall, ready.kernel, ready.stock, fun index bound =>
      ready.stock.head_blank ready.clean frames (Nat.lt_trans bound (by decide))⟩
  have run : LoadRun platform loader height extra pages nodes bytes elf table s id s' :=
    ⟨⟨loadReady, parsed, listed, followed elf table parsed listed, enough, loaded⟩, spans, served⟩
  obtain ⟨program, made⟩ := run.loadedAs
  obtain ⟨left, used, known, held⟩ := made.held
  have satp : s'.satp = s.satp :=
    congrArg Prod.fst ((load_keeps platform loader bytes).of_run loaded)
  obtain ⟨later, from_start⟩ :=
    ready.later origin satp held.kept held.grown held.stock held.enough held.given held.data
  let tables := footprint (slots platform.hhdmOffset s'.pmm.memory) 512 known height
    (program.root platform.hhdmOffset)
  let handed : Handed := ⟨.program bytes, .program id, .program program tables⟩
  have closedHere : KernelClosed platform.hhdmOffset height
    (currentTable platform.hhdmOffset s.satp)
      s.pmm.memory := fun virt above high entry found =>
    closed virt above high entry ((origin.leaf virt above).symm.trans found)
  have right : handed.Right platform height start s' := by
    refine ⟨⟨known, ⟨held.rooted.bound, held.rooted.limbs, Set.Subset.rfl⟩, held.nowhere⟩,
      ⟨pages, nodes, elf, table, s, s', extra, made, fun _ => rfl⟩, fun frame member => ?_,
      made.confined loadReady wide closedHere⟩
    obtain ⟨inUse, -, apart⟩ := held.frames frame member
    exact ⟨held.stock.pagesAligned frame inUse, apart⟩
  refine ⟨handed, used, left, rfl, rfl,
    ⟨?_, held.grown, ?_, pageWords_eq.mp held.kept⟩, right, later,
    from_start, congrArg TaskQueue.queue made.pushed⟩
  · refine Set.disjoint_left.mpr fun page old new => ?_
    rcases new with table | frame
    · exact Set.disjoint_left.mp held.fresh old table
    · exact (held.frames page frame).2.1 old
  · rintro page (table | frame)
    · exact held.rooted.inUse table
    · exact (held.frames page frame).1

section Run

variable {spans : V → UInt64 → List (UInt64 × UInt64)}
  (served : SpanArenas loader platform.vmem spans) (wide : platform.hhdmOffset % 0x200000 = 0)
  (closed : KernelClosed platform.hhdmOffset height (currentTable platform.hhdmOffset start.satp)
    start.pmm.memory)

include served wide closed

/-- A step of booting. -/
theorem BootReady.step {step : BootStep} {value : BootValue} (followed : step.Followed loader)
    (ready : BootReady platform height pages nodes
      (step.cost loader height (rootCost platform.hhdmOffset height start) + extra) s)
    (origin : BootFrom platform height start s)
    (ran : (bootStep platform loader step).run s = (.ok value, s')) :
    ∃ handed used left, handed.step = step ∧ handed.value = value ∧
      BootStepped platform height start s s' pages used left extra handed := by
  cases step with
  | hart tdata hartIdOffset hartId =>
    rw [BootStep.cost, Nat.add_assoc] at ready
    exact BootReady.hart followed ready origin ran
  | core => exact BootReady.core (origin.cost.symm ▸ ready) origin ran
  | program bytes =>
    exact BootReady.program served wide closed followed (origin.cost.symm ▸ ready) origin ran

/-- Steps of booting grant pages, each of which is granted once. -/
theorem BootReady.run {steps : List BootStep} {values : List BootValue}
    (followed : ∀ step ∈ steps, step.Followed loader)
    (ready : BootReady platform height pages nodes
      ((steps.map (·.cost loader height (rootCost platform.hhdmOffset height start))).sum + extra)
        s)
    (origin : BootFrom platform height start s)
    (ran : (boot platform loader steps).run s = (.ok values, s')) :
    ∃ handed used left, handed.map Handed.step = steps ∧ handed.map Handed.value = values ∧
      Grants.Run pageWords (fun handed : Handed => handed.holding.pages)
        (fun handed s => handed.Right platform height start s) pages s handed used s' ∧
      s'.tasks.queue = s.tasks.queue ++ handed.flatMap (·.holding.tasks) ∧
      BootReady platform height used left extra s' := by
  induction steps generalizing pages nodes s values with
  | nil =>
    obtain ⟨values_eq, rfl⟩ := Prod.mk.inj ran
    obtain rfl := Except.ok.inj values_eq
    rw [List.map_nil, List.sum_nil, Nat.zero_add] at ready
    exact ⟨[], pages, nodes, rfl, rfl, .nil pages s, (List.append_nil _).symm, ready⟩
  | cons step steps ih =>
    obtain ⟨here, others⟩ := List.forall_mem_cons.mp followed
    obtain ⟨value, middle, first, rest⟩ := Prog.run_bind_eq_ok ran
    obtain ⟨later, _, second, last⟩ := Prog.run_bind_eq_ok rest
    obtain ⟨values_eq, last_eq⟩ := Prod.mk.inj last
    rw [last_eq] at second
    rw [List.map_cons, List.sum_cons, Nat.add_assoc] at ready
    obtain ⟨handed, used, left, same, gave, stepped⟩ :=
      ready.step served wide closed here origin first
    obtain ⟨more, all, remaining, sames, gaves, granted, queued, final⟩ :=
      ih others stepped.ready stepped.origin second
    refine ⟨handed :: more, all, remaining, ?_, ?_, .cons stepped.granted stepped.right granted, ?_,
      final⟩
    · rw [List.map_cons, same, sames]
    · rw [List.map_cons, gave, gaves]
      exact Except.ok.inj values_eq
    · rw [queued, stepped.queued, List.flatMap_cons, List.append_assoc]

end Run

end Later

/-- A program reaches no page but its own frames. -/
theorem Handed.Right.reaches {start : Machine V} {handed : Handed} {loaded : LoadedProgram}
    {tables : Set UInt64} (right : handed.Right platform height start s)
    (given : handed.holding = .program loaded tables)
    {page : UInt64} (aligned : page % 4096 = 0)
    (reached : UserReaches platform.hhdmOffset (.fromUsize platform.levels) height
      (loaded.root platform.hhdmOffset) s.pmm page) : page ∈ loaded.frames ∧ page ∉ tables := by
  obtain ⟨step, value, holding⟩ := handed
  obtain rfl : holding = .program loaded tables := given
  cases step with
  | program bytes =>
    cases value with
    | program id =>
      obtain ⟨-, -, frames, confined⟩ := right
      have inside := confined.reaches (fun frame member => (frames frame member).1) aligned reached
      exact ⟨inside, (frames page inside).2⟩
    | hart | core => exact right.elim
  | hart | core => cases value <;> exact right.elim

/-- What has been booted: pages that lie apart, and in each place what its step was to make. -/
structure Booted (platform : Platform V) (height : Nat) (start : Machine V) (pages : Set UInt64)
    (handed : List Handed) (s : Machine V) : Prop where
  /-- The pages that were given lie apart. -/
  apart : handed.Pairwise fun first second => Disjoint first.holding.pages second.holding.pages
  /-- They were not in use. -/
  fresh : ∀ given ∈ handed, Disjoint pages given.holding.pages
  /-- They are pages. -/
  aligned : ∀ given ∈ handed, ∀ page ∈ given.holding.pages, page % 4096 = 0
  /-- They hold what was to be made. -/
  right : ∀ given ∈ handed, given.Right platform height start s

/-- What booting has made. -/
theorem BootReady.boots {spans : V → UInt64 → List (UInt64 × UInt64)}
    (served : SpanArenas loader platform.vmem spans) (wide : platform.hhdmOffset % 0x200000 = 0)
    (closed : KernelClosed platform.hhdmOffset height (currentTable platform.hhdmOffset s.satp)
      s.pmm.memory) {steps : List BootStep} {values : List BootValue}
    (followed : ∀ step ∈ steps, step.Followed loader)
    (ready : BootReady platform height pages nodes
      ((steps.map (·.cost loader height (rootCost platform.hhdmOffset height s))).sum + extra) s)
    (ran : (boot platform loader steps).run s = (.ok values, s')) :
    ∃ handed : List Handed, handed.map Handed.step = steps ∧ handed.map Handed.value = values ∧
      Booted platform height s pages handed s' ∧
        s'.tasks.queue = s.tasks.queue ++ handed.flatMap (·.holding.tasks) := by
  have origin : BootFrom platform height s s := ⟨rfl, fun _ _ => rfl, rfl⟩
  obtain ⟨handed, used, left, same, gave, run, queued, final⟩ :=
    ready.run served wide closed followed origin ran
  have stable : ∀ (given : Handed) (before after : Machine V),
      (∀ page ∈ given.holding.pages, pageWords after page = pageWords before page) →
        given.Right platform height s before → given.Right platform height s after :=
    fun given before after kept =>
      Handed.right_kept ready.levels ((pageWords_eq.mpr kept).mono given.holding.fixed_subset)
  have aligned : ∀ given ∈ handed, ∀ page ∈ given.holding.pages, page % 4096 = 0 :=
    fun given member page inside => final.stock.pagesAligned page (run.inUse given member inside)
  exact ⟨handed, same, gave, ⟨run.apart, run.fresh, aligned, run.outcomes stable⟩, queued⟩

/-- Whatever is booted in whatever order, the pages that the steps were given lie apart, and hold at
the end what the steps made of them: thread-local data is there, the kernel's half of each core's
table goes where it went, and each program has the address space that was made for it, in which it
reaches no page but its own frames. -/
theorem boot_isolates {spans : V → UInt64 → List (UInt64 × UInt64)}
    (served : SpanArenas loader platform.vmem spans) (wide : platform.hhdmOffset % 0x200000 = 0)
    (closed : KernelClosed platform.hhdmOffset height (currentTable platform.hhdmOffset s.satp)
      s.pmm.memory) {steps : List BootStep} {values : List BootValue}
    (followed : ∀ step ∈ steps, step.Followed loader)
    (ready : BootReady platform height pages nodes
      ((steps.map (·.cost loader height (rootCost platform.hhdmOffset height s))).sum + extra) s)
    (ran : (boot platform loader steps).run s = (.ok values, s')) :
    ∃ handed : List Handed, handed.map Handed.step = steps ∧ handed.map Handed.value = values ∧
      Booted platform height s pages handed s' ∧
        ∀ given ∈ handed, ∀ loaded tables, given.holding = .program loaded tables →
          ∀ page, page % 4096 = 0 →
            UserReaches platform.hhdmOffset (.fromUsize platform.levels) height
              (loaded.root platform.hhdmOffset) s'.pmm page → page ∈ loaded.frames := by
  obtain ⟨handed, same, gave, booted, -⟩ := ready.boots served wide closed followed ran
  refine ⟨handed, same, gave, booted,
    fun given member loaded tables holds page aligned reached => ?_⟩
  exact ((booted.right given member).reaches holds aligned reached).1

section Sample

/-- A well-formed list has one sequence of frames. -/
theorem Pmm.Holds.unique {p : Pmm} {left right : List UInt64} (holds : p.Holds left)
    (other : p.Holds right) : left = right := by
  obtain ⟨xs, rfl⟩ := List.head?_eq_some_iff.mp holds.head
  obtain ⟨ys, rfl⟩ := List.head?_eq_some_iff.mp other.head
  have away : ∀ {nodes : List UInt64}, p.Holds (p.regionList.head :: nodes) →
      (0 : UInt64) ∉ nodes :=
    fun holds member => (holds.frames 0 (List.mem_cons_of_mem _ member)).nonzero rfl
  exact congrArg _ (holds.links.unique other.links (away holds) (away other))

/-- Booting the sample can begin. -/
theorem loadMachine_boots : BootReady loadPlatform 2 (pagesBeside loadNodes) loadNodes
    (1 + (0x20 + (1 + (imageCost 2 [sampleHeader] + stackCost 2) + 3000))) loadMachine := by
  constructor
  case mapAligned => decide
  case levels => rfl
  case tall => exact Nat.le_refl 2
  case kernel => exact loadMachine_table ▸ loadMachine_kernel
  case stock => exact loadMachine_stock
  case enough =>
    have image : imageCost 2 [sampleHeader] = 3 := by decide
    rw [image, loadNodes, framesFrom_length]
    decide
  case clean => exact loadMachine_clean

/-- A thread-local image of two words. -/
def sampleTdata : List UInt8 := [1, 0, 0, 0, 0, 0, 0, 0, 7, 7, 7, 7, 7, 7, 7, 7]

/-- A hart with the number 2 is set up, and a program is loaded. -/
def sampleSteps : List BootStep := [.hart sampleTdata 0 2, .program [0x13]]

/-- They can be followed. -/
theorem sampleSteps_followed : ∀ step ∈ sampleSteps, step.Followed sampleLoader := by
  have followed : (BootStep.program [0x13]).Followed sampleLoader := by
    intro elf table parsed listed
    obtain rfl := Except.ok.inj parsed
    obtain rfl := Option.some.inj listed
    exact followed_of_served (@sampleHeader_served 0 fun _ => 0)
  have hart : (BootStep.hart sampleTdata 0 2).Followed sampleLoader :=
    ⟨by decide, rfl, by decide⟩
  exact List.forall_mem_cons.mpr ⟨hart, List.forall_mem_singleton.mpr followed⟩

/-- There are frames for them. -/
theorem sampleSteps_ready : BootReady loadPlatform 2 (pagesBeside loadNodes) loadNodes
    ((sampleSteps.map
    (·.cost sampleLoader 2 (rootCost loadPlatform.hhdmOffset 2 loadMachine))).sum +
      3000) loadMachine := by
  have costs : (sampleSteps.map
    (·.cost sampleLoader 2 (rootCost loadMap 2 loadMachine))).sum + 3000 =
        1 + (0x20 + (1 + (imageCost 2 [sampleHeader] + stackCost 2) + 3000)) := by
    rw [loadMachine_cost]
    rfl
  have ready := loadMachine_boots
  rw [← costs] at ready
  exact ready

/-- A hart can be set up from a row of frames, and a row is left. -/
theorem RowStock.initHart {hhdm hartId : UInt64} {tdata : List UInt8} {hartIdOffset count : Nat}
    {p : Pmm} (stocked : RowStock hhdm
      ((tlsFrames (UInt64.ofNat tdata.length)).toNat + ((0x20 : UInt64).toNat + count)) pages p)
    (short : tdata.length < 2 ^ 64) (positive : tlsFrames (UInt64.ofNat tdata.length) ≠ 0)
    (word : hartIdOffset % 8 = 0) (inside : hartIdOffset + 8 ≤ tdata.length) :
    ∃ made p' used, (Lsd.initHart hhdm tdata hartIdOffset hartId).run p = (.ok made, p') ∧
      RowStock hhdm count used p' := by
  obtain ⟨base, middle, claim, stocked', fresh, -⟩ := stocked.claim positive
  obtain ⟨filled, loop, -⟩ : ∃ filled, ((List.range tdata.length).forM fun offset =>
      storeByte (base + UInt64.ofNat offset) (tdata.getD offset 0)).run middle = (.ok (), filled) ∧
        True := Prog.run_range_returns (fun _ _ => True) trivial fun _ _ _ _ => ⟨_, rfl, trivial⟩
  have copied : (initTls hhdm tdata).run p = (.ok base, filled) := by
    rw [initTls, Prog.run_bind_ok claim, Prog.run_bind_ok (unwrap_run _ _), Prog.run_bind_ok loop,
      Prog.run_pure]
  obtain ⟨again, claim', list, written⟩ := initTls_eq_ok short copied
  obtain rfl : again = middle := (Prod.mk.inj (claim'.symm.trans claim)).2
  have source := rowStock_source hhdm
  have fits := tlsFrames_fits short
  have aligned : base % 4096 = 0 := by
    have first : base ∈ framesFrom base (tlsFrames (UInt64.ofNat tdata.length)).toNat := by
      refine mem_framesFrom.mpr ⟨0, ?_, by simp⟩
      exact Nat.pos_of_ne_zero fun zero => positive (UInt64.toNat_inj.mp zero)
    exact (fresh base first).aligned
  have filled_eq : { again with memory := filled.memory } = filled := by
    rw [← list]
  have stocked := source.write stocked' ((written.within aligned fits).mono Set.subset_union_right)
  rw [filled_eq] at stocked
  obtain ⟨stack, last, claim, left, -, -⟩ := stocked.claim (by decide)
  have stacked : (intStack hhdm).run filled = (.ok (stack + 0x20 * 0x1000), last) := by
    rw [intStack, Prog.run_bind_ok claim, Prog.run_bind_ok (unwrap_run _ _), Prog.run_pure]
  have naming : ChangedWithin
      (pages ∪ {frame | frame ∈ framesFrom base (tlsFrames (UInt64.ofNat tdata.length)).toNat} ∪
        {frame | frame ∈ framesFrom stack (0x20 : UInt64).toNat}) last.memory
      (last.memory.store (base + UInt64.ofNat hartIdOffset) hartId) := by
    intro address outside
    refine Function.update_of_ne (fun place => outside ?_) _ _
    obtain ⟨frame, member, index, small, same⟩ := hartId_place aligned word
      ((Nat.lt_of_lt_of_le (Nat.lt_add_of_pos_right (by decide)) inside).trans_le fits)
    exact ⟨frame, .inl (.inr member), index, small, place.trans same⟩
  refine ⟨(base, stack + 0x20 * 0x1000), _, _, ?_, source.write left naming⟩
  rw [Lsd.initHart, Prog.run_bind_ok copied, Prog.run_bind_ok stacked,
    Prog.run_bind_ok (Prog.run_update _ _), Prog.run_pure]

/-- They return, and leave one thread. -/
theorem sampleSteps_run : ∃ base top taskId s' task,
    (boot loadPlatform sampleLoader sampleSteps).run loadMachine =
        (.ok [.hart base top, .program taskId], s') ∧
      s'.tasks = ⟨[task], 0⟩ ∧ s'.currentUserTask.writer = false := by
  have row : RowStock loadMap ((tlsFrames (UInt64.ofNat sampleTdata.length)).toNat +
      ((0x20 : UInt64).toNat + 6000)) (pagesBeside loadNodes) loadPmm :=
    ⟨_, 0x1800, loadMachine_stock, by decide⟩
  obtain ⟨⟨tlsBase, top⟩, p, _, made, base, length, stock, enough⟩ :
      ∃ made p' used, (initHart loadMap sampleTdata 0 2).run loadPmm = (.ok made, p') ∧
        RowStock loadMap 6000 used p' :=
    row.initHart (by decide) (by decide) (by decide) (by decide)
  have inner : (onPmm (initHart loadMap sampleTdata 0 2)).run loadMachine =
      (.ok (tlsBase, top), { loadMachine with pmm := p }) := Prog.run_within made
  have hart : (bootStep loadPlatform sampleLoader (.hart sampleTdata 0 2)).run loadMachine =
      (.ok (.hart tlsBase top), { loadMachine with pmm := p }) :=
    (Prog.run_bind_ok inner).trans (Prog.run_pure _ _)
  obtain ⟨followed, -⟩ := List.forall_mem_cons.mp sampleSteps_followed
  obtain ⟨handed, used, left, -, -, stepped⟩ :=
    BootReady.hart followed loadMachine_boots ⟨rfl, fun _ _ => rfl, rfl⟩ hart
  have ready := stepped.ready
  obtain rfl : left = framesFrom base length := ready.stock.holds.unique stock.holds
  have frames : framesFrom base length ≠ [] :=
    List.ne_nil_of_length_pos (Nat.zero_lt_of_lt ready.enough)
  have loadReady : LoadReady loadPlatform 2 used (framesFrom base length)
      { loadMachine with pmm := p } :=
    ⟨ready.mapAligned, ready.levels, ready.tall, ready.kernel, ready.stock, fun index bound =>
      ready.stock.head_blank ready.clean frames (Nat.lt_trans bound (by decide))⟩
  have cost : rootCost loadMap 2 { loadMachine with pmm := p } = 1 :=
    stepped.origin.cost.trans loadMachine_cost
  have image : imageCost 2 [sampleHeader] = 3 := by decide
  have room : stackRoom 2 = 2563 := rfl
  have queue : loadMachine.tasks.queue.length < queueLimit := by decide
  obtain ⟨taskId, s', loaded⟩ : ∃ taskId s', (load loadPlatform sampleLoader [0x13]).run
      { loadMachine with pmm := p } = (.ok taskId, s') :=
    load_returns loadReady sample_serving rfl rfl sampleHeader_served (Nat.le_refl 1) (by decide)
      loadMachine_ids rfl rfl queue (by
        rw [image, room]
        exact cost.symm ▸ Nat.lt_trans (by decide) enough)
  have program : (bootStep loadPlatform sampleLoader (.program [0x13])).run
      { loadMachine with pmm := p } = (.ok (.program taskId), s') :=
    (Prog.run_bind_ok loaded).trans (Prog.run_pure _ _)
  obtain ⟨_, _, _, _, _, _, _, _, _, parts⟩ := load_eq_ok sample_serving.toSpanArenas loaded
  obtain ⟨task, pushed, -⟩ := parts.pushed
  refine ⟨tlsBase, top, taskId, s', task, ?_, pushed, parts.unlocked⟩
  rw [sampleSteps, boot, Prog.run_bind_ok hart, boot, boot]
  exact (Prog.run_bind_ok
    ((Prog.run_bind_ok program).trans (Prog.run_bind_ok (Prog.run_pure _ _)))).trans
    (Prog.run_pure _ _)

/-- What the hart and the program of the sample were given lies apart, and the hart has its number
behind the thread pointer. -/
theorem boot_isolates_sample : ∃ (tlsBase top taskId : UInt64) (s' : Machine SampleArenas)
    (handed : List Handed),
    (boot loadPlatform sampleLoader sampleSteps).run loadMachine =
        (.ok [.hart tlsBase top, .program taskId], s') ∧
      handed.map Handed.step = sampleSteps ∧
      (handed.Pairwise fun first second => Disjoint first.holding.pages second.holding.pages) ∧
      ∀ given ∈ handed, given.Right loadPlatform 2 loadMachine s' := by
  obtain ⟨tlsBase, top, taskId, s', task, ran, -, -⟩ := sampleSteps_run
  have served : SpanArenas sampleLoader loadPlatform.vmem SampleArenas.spans :=
    sample_serving.toSpanArenas
  have wide : loadPlatform.hhdmOffset % 0x200000 = 0 := by decide
  obtain ⟨handed, same, -, booted, -⟩ :=
    boot_isolates served wide loadMachine_closed sampleSteps_followed sampleSteps_ready ran
  exact ⟨tlsBase, top, taskId, s', handed, ran, same, booted.apart, booted.right⟩

end Sample

end Lsd
