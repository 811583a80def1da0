import Lsd.Lib.Twin
import Lsd.Verif.FrameSupply

/-!
# What a call touches

A call of the kernel touches some pages and the links of some frames only, when it
does the same in every state that agrees on their words, and writes no others. The
words of all other pages may be anything, and stay what they are.
-/

namespace Lsd

open Program Twin

/-- The words of some pages, and the links of some frames. -/
def cells (pages : Set UInt64) (nodes : List UInt64) : Set UInt64 :=
  {address | InPages pages address ∨ LinkWords nodes address}

/-- Two states with the same frame list that agree on some cells. -/
structure Twins (pages : Set UInt64) (nodes : List UInt64) (s t : Pmm) : Prop where
  /-- The list is the same. -/
  list : t.regionList = s.regionList
  /-- The cells are the same. -/
  words : ∀ address ∈ cells pages nodes, t.memory address = s.memory address

/-- Two ends of a program, from two states, that are the same but for what neither run wrote. -/
structure Parallel {α : Type} (writes : Set UInt64) (s t : Pmm)
    (first second : Except Stop α × Pmm) :
    Prop where
  /-- The result is the same. -/
  result : second.1 = first.1
  /-- The list is the same. -/
  list : second.2.regionList = first.2.regionList
  /-- What was written is the same. -/
  words : Alike writes s.memory t.memory first.2.memory second.2.memory

section Cells

variable {pages more : Set UInt64} {nodes fewer : List UInt64} {s t s₁ t₁ : Pmm}
  {writes : Set UInt64} {page table : UInt64} {index : Nat}

/-- The words of a page are cells. -/
theorem mem_cells (member : page ∈ pages) (bound : index < 512) :
    wordOf page index ∈ cells pages nodes := .inl ⟨page, member, index, bound, rfl⟩

/-- More pages and frames have more cells. -/
theorem cells_mono (pagesSubset : pages ⊆ more) (nodesSubset : fewer ⊆ nodes) :
    cells pages fewer ⊆ cells more nodes := by
  rintro address (⟨page, member, inside⟩ | ⟨node, listed, inside⟩)
  · exact .inl ⟨page, pagesSubset member, inside⟩
  · exact .inr ⟨node, nodesSubset listed, inside⟩

/-- A word of the same page is the same. -/
theorem Twins.word (twins : Twins pages nodes s t) (member : page ∈ pages) (bound : index < 512) :
    t.memory (wordOf page index) = s.memory (wordOf page index) :=
  twins.words _ (mem_cells member bound)

/-- The list is a stock in both states. -/
theorem Twins.stock {hhdm : UInt64} {used : Set UInt64} (twins : Twins pages nodes s t)
    (stock : Stock hhdm used s nodes) : Stock hhdm used t nodes := by
  refine ⟨⟨stock.holds.frames, ?_, ?_, ?_, ?_⟩, stock.pagesAligned, stock.apart, stock.inMap⟩
  · exact twins.list ▸ stock.holds.head
  · exact twins.list ▸ stock.holds.tail
  · exact stock.holds.links.congr fun node listed =>
      ⟨twins.words _ (.inr ⟨node, listed, .inl rfl⟩), twins.words _ (.inr ⟨node, listed, .inr rfl⟩)⟩
  · exact twins.list ▸ stock.holds.len

/-- States that agree on cells agree on them after runs that write the same. -/
theorem Twins.after (twins : Twins pages nodes s t) (list : t₁.regionList = s₁.regionList)
    (alike : Alike writes s.memory t.memory s₁.memory t₁.memory) (subset : fewer ⊆ nodes) :
    Twins pages fewer s₁ t₁ :=
  ⟨list, fun _ member => alike.agree (twins.words _ (cells_mono subset_rfl subset member))⟩

end Cells

/-- Whether a call does the same in every state with the same list that agrees on the words of some
pages and the links of some frames, and writes there the same words, at certain addresses only. -/
def TouchesOnly {α : Type} (pages : Set UInt64) (nodes : List UInt64) (writes : Set UInt64)
    (program : Kernel Pmm α) (s : Pmm) : Prop :=
  ∀ t, Twins pages nodes s t → Parallel writes s t (program.run s) (program.run t)

section Parallel

variable {α : Type} {writes more : Set UInt64} {s t s₁ t₁ : Pmm}
  {first second : Except Stop α × Pmm} {pages : Set UInt64} {nodes : List UInt64}

/-- Two runs that stop at once for the same reason. -/
theorem Parallel.rest {result : Except Stop α} (list : t.regionList = s.regionList) :
    Parallel writes s t (result, s) (result, t) := ⟨rfl, list, .refl⟩

/-- Runs that go on in parallel were in parallel. -/
theorem Parallel.later (alike : Alike writes s.memory t.memory s₁.memory t₁.memory)
    (parallel : Parallel more s₁ t₁ first second) (subset : more ⊆ writes) :
    Parallel writes s t first second :=
  ⟨parallel.result, parallel.list, alike.trans (parallel.words.mono subset)⟩

end Parallel

section Touches

variable {α : Type} {writes more : Set UInt64} {s : Pmm} {pages : Set UInt64} {nodes : List UInt64}
  {program next : Kernel Pmm α} {result : Except Stop α} {address value : UInt64}

/-- A state is its own twin. -/
theorem Twins.refl : Twins pages nodes s s := ⟨rfl, fun _ _ => rfl⟩

/-- A call that does what another one does touches what that one touches. -/
theorem TouchesOnly.congr (touches : TouchesOnly pages nodes writes next s)
    (same : ∀ t, Twins pages nodes s t → program.run t = next.run t) :
    TouchesOnly pages nodes writes program s := by
  intro t twins
  rw [same t twins, same s .refl]
  exact touches t twins

/-- The addresses that may be written can be more. -/
theorem TouchesOnly.mono (touches : TouchesOnly pages nodes writes program s)
    (subset : writes ⊆ more) : TouchesOnly pages nodes more program s := fun t twins =>
  ⟨(touches t twins).result, (touches t twins).list, (touches t twins).words.mono subset⟩

/-- A call that changes nothing writes nothing. -/
theorem TouchesOnly.rest (ran : ∀ t, Twins pages nodes s t → program.run t = (result, t)) :
    TouchesOnly pages nodes writes program s := by
  intro t twins
  rw [ran t twins, ran s .refl]
  exact .rest twins.list

/-- A call that stores one word touches that word. -/
theorem TouchesOnly.store (member : address ∈ writes) (ran : ∀ t, Twins pages nodes s t →
      program.run t = (result, { t with memory := t.memory.store address value })) :
    TouchesOnly pages nodes writes program s := by
  intro t twins
  rw [ran t twins, ran s .refl]
  exact ⟨rfl, twins.list, Alike.refl.update member⟩

/-- A call that changes the state and then does what another one does touches what both touch. -/
theorem TouchesOnly.after {used : Set UInt64} {left : List UInt64} (change : Pmm → Pmm)
    (touches : TouchesOnly used left writes next (change s))
    (ran : ∀ t, Twins pages nodes s t → program.run t = next.run (change t))
    (changed : ∀ t, Twins pages nodes s t → Twins used left (change s) (change t) ∧
      Alike writes s.memory t.memory (change s).memory (change t).memory) :
    TouchesOnly pages nodes writes program s := by
  intro t twins
  obtain ⟨later, alike⟩ := changed t twins
  rw [ran t twins, ran s .refl]
  exact .later alike (touches _ later) subset_rfl

/-- Calls one after the other touch what both touch. -/
theorem TouchesOnly.bind {β : Type} {first : Kernel Pmm β} {rest : β → Kernel Pmm α} {value : β}
    {s₁ : Pmm} {left : List UInt64} {few : Set UInt64}
    (touches : TouchesOnly pages nodes writes first s) (ran : first.run s = (.ok value, s₁))
    (later : TouchesOnly pages left few (rest value) s₁) (nodesSubset : left ⊆ nodes)
    (subset : few ⊆ writes) : TouchesOnly pages nodes writes (first >>= rest) s := by
  intro t twins
  obtain ⟨result, list, words⟩ := touches t twins
  rw [ran] at result list words
  have ran' : first.run t = (.ok value, (first.run t).2) := Prod.ext result rfl
  rw [Prog.run_bind_ok ran, Prog.run_bind_ok ran']
  exact .later words (later _ (twins.after list words nodesSubset)) subset

/-- Nothing else is written. -/
theorem TouchesOnly.kept {s' : Pmm} (touches : TouchesOnly pages nodes writes program s)
    (ran : program.run s = (result, s')) {place : UInt64} (outside : place ∉ writes) :
    s'.memory place = s.memory place := by
  have words := (touches s .refl).words
  rw [ran] at words
  exact words.kept outside

end Touches

end Lsd
