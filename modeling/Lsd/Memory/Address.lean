import Mathlib
import Lsd.Lib.Program

/-!
# Memory words and page frames

The kernel reads and writes physical memory through the higher-half direct map,
so one memory of 64-bit words at byte addresses serves the frame list, the page
tables and the heap. A frame is named by the address of its first byte in that
map. Pointers are machine words and arithmetic on them wraps, as in the release
build.
-/

namespace Lsd

open Program

/-- Why a kernel path ends without returning. -/
inductive Stop where
  /-- A Rust panic with its message. -/
  | panic (message : String)
  /-- A read or write through a null pointer. -/
  | nullAccess
  /-- A spin lock that the same hart already holds. -/
  | deadlock
  /-- A loop that has not ended within the steps allowed to it. -/
  | unfinished
deriving DecidableEq, Repr

/-- Kernel code over a state. -/
abbrev Kernel (σ α : Type) : Type := Prog Stop σ α

/-- How `Debug` shows a text in which there is nothing to escape. -/
def quoted (text : String) : String := "\"" ++ text ++ "\""

/-- `Result::unwrap`. The errors of the kernel are texts; those of other crates are given as `Debug`
shows them. -/
def unwrap {σ α : Type} (result : Except String α) (debug : String → String := quoted) :
    Kernel σ α :=
  match result with
  | .ok value => pure value
  | .error message =>
    Prog.stop (.panic ("called `Result::unwrap()` on an `Err` value: " ++ debug message))

/-- `Option::unwrap`. -/
def unwrapSome {σ α : Type} : Option α → Kernel σ α
  | some value => pure value
  | none => Prog.stop (.panic "called `Option::unwrap()` on a `None` value")

/-- The word at each 8-byte aligned address. -/
abbrev Memory : Type := UInt64 → UInt64

/-- Memory after one word is stored. -/
def Memory.store (memory : Memory) (address value : UInt64) : Memory :=
  Function.update memory address value

/-- `usize::is_power_of_two`. -/
def isPowerOfTwo (number : Nat) : Bool := 2 ^ number.log2 = number

/-- A page frame: page-aligned, and not the null pointer. -/
structure IsFrame (address : UInt64) : Prop where
  /-- No object lives at the null pointer. -/
  nonzero : address ≠ 0
  /-- `is_aligned` of the page-aligned entry and table types. -/
  aligned : address % 4096 = 0

/-- Word number `index` of a page. -/
def wordOf (page : UInt64) (index : Nat) : UInt64 := page + UInt64.ofNat (8 * index)

/-- Alignment as a fact about the address number. -/
theorem aligned_toNat {address : UInt64} (aligned : address % 4096 = 0) :
    address.toNat % 4096 = 0 := by
  have number := congrArg UInt64.toNat aligned
  simpa using number

/-- Words of aligned pages coincide only as the same word of the same page. -/
theorem wordOf_inj {page other : UInt64} {i j : Nat} (hp : page % 4096 = 0)
    (ho : other % 4096 = 0) (hi : i < 512) (hj : j < 512) (same : wordOf page i = wordOf other j) :
    page = other ∧ i = j := by
  have hp := aligned_toNat hp
  have ho := aligned_toNat ho
  have bp := page.toNat_lt
  have bo := other.toNat_lt
  have number := congrArg UInt64.toNat same
  simp only [wordOf, UInt64.toNat_add, UInt64.toNat_ofNat'] at number
  refine ⟨UInt64.toNat_inj.mp ?_, ?_⟩ <;> omega

/-- Word zero is the page address itself. -/
@[simp] theorem wordOf_zero (page : UInt64) : wordOf page 0 = page := by simp [wordOf]

/-- The distance of a word from its page. -/
theorem wordOf_sub {page : UInt64} {index : Nat} (bound : index < 512) :
    (wordOf page index - page).toNat = 8 * index := by
  have := page.toNat_lt
  simp only [wordOf, UInt64.toNat_sub, UInt64.toNat_add, UInt64.toNat_ofNat']
  omega

/-- An address at the distance of a word is that word. -/
theorem eq_wordOf {page address : UInt64} {index : Nat}
    (distance : (address - page).toNat = 8 * index) : address = wordOf page index := by
  rw [wordOf, ← distance, UInt64.ofNat_toNat, UInt64.add_comm, UInt64.sub_add_cancel]

/-- Whether an address is one of the words of a page in a set of pages. -/
def InPages (pages : Set UInt64) (address : UInt64) : Prop :=
  ∃ page ∈ pages, ∃ index < 512, address = wordOf page index

/-- Memory changed at most inside a set of pages. -/
def ChangedWithin (pages : Set UInt64) (old new : Memory) : Prop :=
  ∀ address, ¬ InPages pages address → new address = old address

/-- The words of some pages kept their values. -/
def Kept (pages : Set UInt64) (old new : Memory) : Prop :=
  ∀ page ∈ pages, ∀ index < 512, new (wordOf page index) = old (wordOf page index)

/-- Nothing changed. -/
theorem ChangedWithin.refl (pages : Set UInt64) (memory : Memory) :
    ChangedWithin pages memory memory := fun _ _ => rfl

/-- Changes inside a set of pages compose. -/
theorem ChangedWithin.trans {pages : Set UInt64} {first second third : Memory}
    (left : ChangedWithin pages first second) (right : ChangedWithin pages second third) :
    ChangedWithin pages first third := fun address out =>
  (right address out).trans (left address out)

/-- Changes inside fewer pages are changes inside more. -/
theorem ChangedWithin.mono {few many : Set UInt64} {old new : Memory}
    (changed : ChangedWithin few old new) (subset : few ⊆ many) : ChangedWithin many old new :=
  fun address out => changed address fun ⟨page, member, inside⟩ =>
    out ⟨page, subset member, inside⟩

/-- A store into a page changes that page only. -/
theorem ChangedWithin.store {pages : Set UInt64} {page : UInt64} {index : Nat} (memory : Memory)
    (member : page ∈ pages) (bound : index < 512) (value : UInt64) :
    ChangedWithin pages memory (memory.store (wordOf page index) value) := fun _ out =>
  Function.update_of_ne (fun same => out ⟨page, member, index, bound, same⟩) _ _

/-- Words kept twice are kept. -/
theorem Kept.trans {pages : Set UInt64} {first second third : Memory}
    (left : Kept pages first second) (right : Kept pages second third) : Kept pages first third :=
  fun page member index bound =>
    (right page member index bound).trans (left page member index bound)

/-- Fewer pages are kept as well. -/
theorem Kept.mono {few many : Set UInt64} {old new : Memory} (kept : Kept many old new)
    (subset : few ⊆ many) : Kept few old new := fun page member => kept page (subset member)

/-- A store into a page keeps every other page. -/
theorem Kept.store {pages : Set UInt64} {page : UInt64} {index : Nat} (memory : Memory)
    (pagesAligned : ∀ page ∈ pages, page % 4096 = 0) (aligned : page % 4096 = 0)
    (bound : index < 512) (value : UInt64) :
    Kept (pages \ {page}) memory (memory.store (wordOf page index) value) := by
  intro other ⟨member, apart⟩ next small
  refine Function.update_of_ne (fun same => apart ?_) _ _
  exact (wordOf_inj (pagesAligned other member) aligned small bound same).1

/-- A word of a page outside the set keeps its value. -/
theorem ChangedWithin.word {pages : Set UInt64} {old new : Memory} {page : UInt64} {index : Nat}
    (changed : ChangedWithin pages old new) (aligned : ∀ other ∈ pages, other % 4096 = 0)
    (pageAligned : page % 4096 = 0) (bound : index < 512) (out : page ∉ pages) :
    new (wordOf page index) = old (wordOf page index) := by
  refine changed _ ?_
  rintro ⟨other, member, i, hi, same⟩
  exact out ((wordOf_inj pageAligned (aligned other member) bound hi same).1 ▸ member)

end Lsd
