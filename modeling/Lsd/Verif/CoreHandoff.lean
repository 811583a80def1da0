import Lsd.Boot.CoreInit
import Lsd.Lib.Transition
import Lsd.Verif.EntryBits

/-!
# What the started cores pick up

`CORE_INIT` is a mailbox with one slot, and `claimed` says that it was read. The
boot core stores `true` to it after every round, so only the first round waits
for its core. One more core finds its own values still there, because nothing is
written after them; with a third one the values of the second can be gone.
-/

namespace Lsd

open Transition

variable {values : CoreValues} {count core : Nat} {s s' : Smp}

/-- The `satp` that a core has loaded. -/
def CorePhase.satp? : CorePhase → Option Satp
  | .tabled satp | .stacked satp _ | .claimed satp _ => some satp
  | _ => none

/-- The stack that a core has loaded. -/
def CorePhase.sp? : CorePhase → Option UInt64
  | .stacked _ sp | .claimed _ sp => some sp
  | _ => none

namespace Smp

/-- The states that the cores come to. -/
def Reaches (values : CoreValues) (count : Nat) : Smp → Prop :=
  Reachable (fun s => s = init) fun s actor s' => step values count s actor = some s'

/-- Every core has loaded what the boot core wrote for it. -/
structure HandedOver (values : CoreValues) (s : Smp) : Prop where
  /-- Its root table. -/
  satp : ∀ core satp, (s.cores core).satp? = some satp → satp = values.satp core
  /-- Its stack. -/
  sp : ∀ core sp, (s.cores core).sp? = some sp → sp = values.sp core

/-- No two cores run on one root table or on one stack. -/
structure Separate (hhdm : UInt64) (s : Smp) : Prop where
  /-- Root tables. -/
  satp : ∀ core other, core ≠ other → ∀ first, (s.cores core).satp? = some first →
    ∀ second, (s.cores other).satp? = some second →
      currentTable hhdm first ≠ currentTable hhdm second
  /-- Stacks. -/
  sp : ∀ core other, core ≠ other → ∀ first, (s.cores core).sp? = some first →
    ∀ second, (s.cores other).sp? = some second → first ≠ second

/-- Whether the core of the round is started. -/
def Underway (s : Smp) : Prop := s.phase = .wait ∨ s.phase = .store

/-- What holds in every state, for any number of cores: the first round waits for its core, and
the mailbox holds the values of the last core they were written for. -/
structure Ordered (values : CoreValues) (count : Nat) (s : Smp) : Prop where
  /-- A round has a core to start. -/
  round : s.round < count ∨ s.round = count ∧ s.phase = .satp
  /-- Started cores belong to rounds. -/
  started : ∀ core, s.cores core ≠ .off → core < s.round ∨ core = s.round ∧ s.Underway
  /-- Once the flag is set the first core has claimed. -/
  flagged : s.coreInit.claimed = true → ∃ satp sp, s.cores 0 = .claimed satp sp
  /-- The first round ends once the flag is set, and it stays set. -/
  first : 0 < s.round ∨ s.phase = .store → s.coreInit.claimed = true
  /-- Between rounds the mailbox holds what the last round wrote. -/
  between : s.phase = .satp → ∀ core, s.round = core + 1 →
    s.coreInit.satp = values.satp core ∧ s.coreInit.sp = values.sp core
  /-- The table of the round is written. -/
  satp : s.phase ≠ .satp → s.coreInit.satp = values.satp s.round
  /-- The stack of the round is written. -/
  sp : s.phase = .start ∨ s.Underway → s.coreInit.sp = values.sp s.round

/-- Before `smp_init` no core is started. -/
theorem Ordered.of_init : Ordered values count init := by
  refine ⟨?_, fun core on => absurd rfl on, ?_, ?_, ?_, fun away => absurd rfl away, ?_⟩
  · exact (Nat.eq_zero_or_pos count).elim (fun none => .inr ⟨none.symm, rfl⟩) .inl
  · exact fun set => nomatch set
  · rintro (behind | stores)
    · exact absurd behind (Nat.lt_irrefl 0)
    · nomatch stores
  · exact fun _ core past => nomatch past
  · rintro (starts | waits | stores)
    · nomatch starts
    · nomatch waits
    · nomatch stores

/-- What a step of the boot core can do. -/
theorem bootStep_cases (stepped : bootStep values count s = some s') : s.round < count ∧
    (s.phase = .satp ∧ s' = { s with
        coreInit := { s.coreInit with satp := values.satp s.round }, phase := .sp } ∨
      s.phase = .sp ∧ s' = { s with
        coreInit := { s.coreInit with sp := values.sp s.round }, phase := .start } ∨
      s.phase = .start ∧ s' = { s with
        cores := Function.update s.cores s.round .started, phase := .wait } ∨
      s.phase = .wait ∧ s.coreInit.claimed = true ∧ s' = { s with phase := .store } ∨
      s.phase = .wait ∧ s' = s ∨
      s.phase = .store ∧ s' = { s with
        coreInit := { s.coreInit with claimed := true }, round := s.round + 1,
        phase := .satp }) := by
  rw [bootStep] at stepped
  split at stepped
  · next inside =>
    refine ⟨inside, ?_⟩
    split at stepped
    · next phase => exact .inl ⟨phase, (Option.some.inj stepped).symm⟩
    · next phase => exact .inr (.inl ⟨phase, (Option.some.inj stepped).symm⟩)
    · next phase => exact .inr (.inr (.inl ⟨phase, (Option.some.inj stepped).symm⟩))
    · next phase =>
      split at stepped
      · next set =>
        exact .inr (.inr (.inr (.inl ⟨phase, set, (Option.some.inj stepped).symm⟩)))
      · exact .inr (.inr (.inr (.inr (.inl ⟨phase, (Option.some.inj stepped).symm⟩))))
    · next phase => exact .inr (.inr (.inr (.inr (.inr ⟨phase, (Option.some.inj stepped).symm⟩))))
  · nomatch stepped

/-- What a step of a secondary core can do. -/
theorem coreStep_cases (stepped : coreStep core s = some s') :
    s.cores core = .started ∧ s' = { s with
        cores := Function.update s.cores core (.tabled s.coreInit.satp) } ∨
      (∃ satp, s.cores core = .tabled satp ∧ s' = { s with
        cores := Function.update s.cores core (.stacked satp s.coreInit.sp) }) ∨
      (∃ satp sp, s.cores core = .stacked satp sp ∧ s' = { s with
        coreInit := { s.coreInit with claimed := true }
        cores := Function.update s.cores core (.claimed satp sp) }) := by
  rw [coreStep] at stepped
  split at stepped
  · next phase => exact .inl ⟨phase, (Option.some.inj stepped).symm⟩
  · next satp phase => exact .inr (.inl ⟨satp, phase, (Option.some.inj stepped).symm⟩)
  · next satp sp phase => exact .inr (.inr ⟨satp, sp, phase, (Option.some.inj stepped).symm⟩)
  · nomatch stepped

/-- A step of the boot core keeps the order. -/
theorem Ordered.bootStep (ordered : s.Ordered values count)
    (stepped : bootStep values count s = some s') :
    s'.Ordered values count := by
  obtain ⟨round, started, flagged, first, between, satp, sp⟩ := ordered
  obtain ⟨inside, ⟨phase, rfl⟩ | ⟨phase, rfl⟩ | ⟨phase, rfl⟩ | ⟨phase, set, rfl⟩ | ⟨phase, rfl⟩ |
    ⟨phase, rfl⟩⟩ := bootStep_cases stepped
  · simp only [Underway, phase] at *
    constructor <;> simp_all [Underway]
  · simp only [Underway, phase] at *
    constructor <;> simp_all [Underway]
  · simp only [Underway, phase] at started first satp
    constructor
    case round => exact .inl inside
    case started =>
      intro core on
      by_cases here : core = s.round
      · exact .inr ⟨here, .inl rfl⟩
      · have before : s.cores core ≠ .off := Function.update_of_ne here .started s.cores ▸ on
        exact .inl (by simpa using started core before)
    case flagged =>
      -- the first core was started before the flag was set
      intro set
      obtain ⟨own, stack, claims⟩ := flagged set
      have before : 0 < s.round := by simpa using started 0 (by simp [claims])
      exact ⟨own, stack, (Function.update_of_ne before.ne _ _).trans claims⟩
    case first => exact fun past => first (past.imp id fun stores => by cases stores)
    case between => exact fun between => by cases between
    case satp => exact fun _ => satp (by decide)
    case sp => exact fun _ => sp (.inl phase)
  · simp only [Underway, phase] at *
    constructor <;> simp_all [Underway]
  · exact ⟨round, started, flagged, first, between, satp, sp⟩
  · simp only [Underway, phase] at *
    constructor
    case round => exact (Nat.lt_or_eq_of_le inside).imp id fun last => ⟨last, rfl⟩
    case started =>
      intro core on
      have := started core on
      exact .inl (by simp at this ⊢; omega)
    case flagged => exact fun _ => flagged (first (by simp))
    case first => exact fun _ => rfl
    case between =>
      intro _ core last
      obtain rfl : s.round = core := Nat.succ_injective last
      exact ⟨satp (by decide), sp (by simp)⟩
    case satp => exact fun away => absurd rfl away
    case sp => exact fun under => by simp [Underway] at under

/-- A step of a secondary core keeps the order. -/
theorem Ordered.coreStep (ordered : s.Ordered values count) (stepped : coreStep core s = some s') :
    s'.Ordered values count := by
  obtain ⟨round, started, flagged, first, between, satp, sp⟩ := ordered
  have on : ∀ phase : CorePhase, s.cores core ≠ .off →
      ∀ other, Function.update s.cores core phase other ≠ .off →
        other < s.round ∨ other = s.round ∧ s.Underway := by
    intro phase here other there
    by_cases same : other = core
    · exact same ▸ started core here
    · rw [Function.update_of_ne same] at there
      exact started other there
  have kept : ∀ phase : CorePhase, (∀ satp sp, s.cores core ≠ .claimed satp sp) →
      s.coreInit.claimed = true →
        ∃ satp sp, Function.update s.cores core phase 0 = .claimed satp sp := by
    intro phase pending set
    obtain ⟨own, stack, claims⟩ := flagged set
    have other : 0 ≠ core := by
      rintro rfl
      exact pending own stack claims
    exact ⟨own, stack, (Function.update_of_ne other _ _).trans claims⟩
  obtain ⟨phase, rfl⟩ | ⟨own, phase, rfl⟩ | ⟨own, stack, phase, rfl⟩ := coreStep_cases stepped
  · exact ⟨round, on _ (by simp [phase]), kept _ (by simp [phase]), first, between, satp, sp⟩
  · exact ⟨round, on _ (by simp [phase]), kept _ (by simp [phase]), first, between, satp, sp⟩
  · refine ⟨round, on _ (by simp [phase]), fun _ => ?_, fun _ => rfl, between, satp, sp⟩
    by_cases zero : 0 = core
    · subst zero
      exact ⟨own, stack, Function.update_self 0 _ s.cores⟩
    · -- a later core is started only after the flag was set
      have before : 0 < s.round := by
        rcases started core (by simp [phase]) with behind | ⟨here, -⟩ <;> omega
      exact kept _ (by simp [phase]) (first (.inl before))

/-- The order holds in every state. -/
theorem Ordered.of_reaches (reaches : Reaches values count s) : s.Ordered values count :=
  reaches.invariant (fun _ begun => begun ▸ .of_init) fun _ actor _ ordered stepped =>
    match actor with
    | none => ordered.bootStep stepped
    | some _ => ordered.coreStep stepped

/-- With two secondary cores a core that has not claimed finds its values in the mailbox. -/
theorem Ordered.mailbox (ordered : s.Ordered values count) (few : count ≤ 2)
    (on : s.cores core ≠ .off)
    (pending : ∀ satp sp, s.cores core ≠ .claimed satp sp) :
    s.coreInit.satp = values.satp core ∧ s.coreInit.sp = values.sp core := by
  rcases ordered.started core on with behind | ⟨rfl, underway⟩
  · have later : core ≠ 0 := by
      rintro rfl
      obtain ⟨satp, sp, claims⟩ := ordered.flagged (ordered.first (.inl behind))
      exact pending satp sp claims
    -- the second core is the last one, and nothing is written after its round
    obtain more | ⟨last, phase⟩ := ordered.round
    · omega
    · exact ordered.between phase core (by omega)
  · have away : s.phase ≠ .satp := by
      rcases underway with wait | store
      · rw [wait]
        decide
      · rw [store]
        decide
    exact ⟨ordered.satp away, ordered.sp (.inr underway)⟩

/-- Before `smp_init` no core has loaded anything. -/
theorem HandedOver.of_init : HandedOver values init :=
  ⟨fun _ _ loaded => (nomatch loaded), fun _ _ loaded => (nomatch loaded)⟩

/-- A core that loads what was written for it keeps the hand-over right. -/
theorem HandedOver.update (handed : s.HandedOver values) {phase : CorePhase}
    (moved : s'.cores = Function.update s.cores core phase)
    (satp : ∀ satp, phase.satp? = some satp → satp = values.satp core)
    (sp : ∀ sp, phase.sp? = some sp → sp = values.sp core) : s'.HandedOver values := by
  constructor
  · intro other own loaded
    rw [moved] at loaded
    by_cases same : other = core
    · subst same
      rw [Function.update_self] at loaded
      exact satp own loaded
    · rw [Function.update_of_ne same] at loaded
      exact handed.satp other own loaded
  · intro other own loaded
    rw [moved] at loaded
    by_cases same : other = core
    · subst same
      rw [Function.update_self] at loaded
      exact sp own loaded
    · rw [Function.update_of_ne same] at loaded
      exact handed.sp other own loaded

/-- With two secondary cores every step keeps the hand-over right. -/
theorem HandedOver.step (handed : s.HandedOver values) (ordered : s.Ordered values count)
    (few : count ≤ 2) {actor : Option Nat} (stepped : step values count s actor = some s') :
    s'.HandedOver values := by
  cases actor with
  | none =>
    obtain ⟨-, ⟨-, rfl⟩ | ⟨-, rfl⟩ | ⟨-, rfl⟩ | ⟨-, -, rfl⟩ | ⟨-, rfl⟩ | ⟨-, rfl⟩⟩ :=
      bootStep_cases stepped
    · exact ⟨handed.satp, handed.sp⟩
    · exact ⟨handed.satp, handed.sp⟩
    · exact handed.update rfl (fun _ loaded => (nomatch loaded)) fun _ loaded => (nomatch loaded)
    · exact ⟨handed.satp, handed.sp⟩
    · exact handed
    · exact ⟨handed.satp, handed.sp⟩
  | some core =>
    obtain ⟨phase, rfl⟩ | ⟨own, phase, rfl⟩ | ⟨own, stack, phase, rfl⟩ := coreStep_cases stepped
    · have mail : s.coreInit.satp = values.satp core :=
        (ordered.mailbox few (by simp [phase]) (by simp [phase])).1
      refine handed.update rfl (fun _ loaded => ?_) fun _ loaded => (nomatch loaded)
      rw [← Option.some.inj loaded, mail]
    · have mail : s.coreInit.sp = values.sp core :=
        (ordered.mailbox few (by simp [phase]) (by simp [phase])).2
      refine handed.update rfl (handed.satp core · <| phase ▸ ·) fun _ loaded => ?_
      rw [← Option.some.inj loaded, mail]
    · exact handed.update rfl (handed.satp core · <| phase ▸ ·) (handed.sp core · <| phase ▸ ·)

/-- With two secondary cores each loads what was written for it, in every order of steps. -/
theorem HandedOver.of_reaches (few : count ≤ 2) (reaches : Reaches values count s) :
    s.HandedOver values := by
  induction reaches with
  | start begun => exact begun ▸ .of_init
  | next actor before stepped handed => exact handed.step (.of_reaches before) few stepped

/-- An order of steps in which the boot core writes for the third core before the second has loaded
anything. -/
def overtaking : List (Option Nat) :=
  [none, none, none, some 0, some 0, some 0, none, none, none, none, none, none, none, none, some 1]

/-- In that order the second core loads the root table of the third. -/
theorem overtaking_run (more : 2 < count) :
    ∃ last, overtaking.foldlM (step values count) init = some last ∧
      (last.cores 1).satp? = some (values.satp 2) := by
  have first : 0 < count := by omega
  have second : 1 < count := by omega
  simp [overtaking, step, bootStep, coreStep, init, first, second, more, CorePhase.satp?]

/-- The `satp` of a core names the table that was made for it. -/
theorem currentTable_coreSatp {hhdm satp table : UInt64} (mapAligned : hhdm % 4096 = 0)
    (aligned : table % 4096 = 0) (short : (table - hhdm).toNat < 2 ^ 56) :
    currentTable hhdm (coreSatp hhdm satp table) = table := by
  obtain ⟨small, back⟩ := shift_page mapAligned aligned short
  rw [currentTable, coreSatp, Satp.getPpn, Satp.setMode, Satp.setPpn,
    getBits_setBits_apart (by decide) (by decide) (.inl (by decide)),
    getBits_setBits (by decide) (by decide) small, back]

/-- Cores that loaded their own values run apart. -/
theorem HandedOver.separate {hhdm : UInt64} {frames : CoreFrames hhdm count}
    (handed : s.HandedOver frames.values) (ordered : s.Ordered frames.values count) :
    s.Separate hhdm := by
  have known : ∀ core, s.cores core ≠ .off → core < count := by
    intro core on
    rcases ordered.started core on with behind | ⟨here, underway⟩
    · have := ordered.round
      omega
    · rcases ordered.round with inside | ⟨-, phase⟩
      · omega
      · rcases underway with wait | store
        · exact absurd (phase.symm.trans wait) (by decide)
        · exact absurd (phase.symm.trans store) (by decide)
  have table : ∀ core satp, (s.cores core).satp? = some satp →
      core < count ∧ currentTable hhdm satp = frames.table core := by
    intro core satp loaded
    have inside : core < count := known core fun off => by simp [off, CorePhase.satp?] at loaded
    rw [handed.satp core satp loaded]
    exact ⟨inside, currentTable_coreSatp frames.mapAligned (frames.aligned core inside)
      (frames.short core inside)⟩
  constructor
  · intro core other apart first loaded second loaded' same
    obtain ⟨inside, leads⟩ := table core first loaded
    obtain ⟨inside', leads'⟩ := table other second loaded'
    exact apart (frames.tablesApart core inside other inside'
      (leads.symm.trans (same.trans leads')))
  · intro core other apart first loaded second loaded' same
    have inside : core < count := known core fun off => by simp [off, CorePhase.sp?] at loaded
    have inside' : other < count := known other fun off => by simp [off, CorePhase.sp?] at loaded'
    rw [handed.sp core first loaded, handed.sp other second loaded'] at same
    exact apart (frames.stacksApart core inside other inside' same)

/-- Every core loads what was written for it, and no two run on one table or stack, in every order
of steps, exactly when there are at most two secondary cores. -/
theorem handoff_iff {hhdm : UInt64} (frames : CoreFrames hhdm count) :
    (∀ s, Reaches frames.values count s → s.HandedOver frames.values ∧ s.Separate hhdm) ↔
      count ≤ 2 := by
  constructor
  · intro always
    by_contra more
    obtain ⟨last, ran, wrong⟩ := @overtaking_run frames.values count (by omega)
    have begun : Reaches frames.values count init := .start rfl
    have handed := (always last (begun.foldlM ran)).1
    have same : currentTable hhdm (frames.values.satp 2) =
        currentTable hhdm (frames.values.satp 1) :=
      congrArg _ (handed.satp 1 _ wrong)
    have leads : ∀ core < count, currentTable hhdm (frames.values.satp core) = frames.table core :=
      fun core inside => currentTable_coreSatp frames.mapAligned (frames.aligned core inside)
        (frames.short core inside)
    rw [leads 2 (by omega), leads 1 (by omega)] at same
    exact absurd (frames.tablesApart 2 (by omega) 1 (by omega) same) (by decide)
  · intro two s reaches
    have handed := HandedOver.of_reaches two reaches
    exact ⟨handed, handed.separate (.of_reaches reaches)⟩

/-- Two tables and two stacks. -/
def twoFrames : CoreFrames 0xffff800000000000 2 where
  table core := 0xffff800080000000 + UInt64.ofNat (4096 * core)
  stack core := 0xffff800080100000 + UInt64.ofNat (0x80000 * core)
  satp := 0
  mapAligned := by decide
  aligned := by decide
  short := by decide
  tablesApart := by decide
  stacksApart := by decide

/-- Two secondary cores, of which the second loads its stack after the last round: each runs on its
own. -/
theorem handoff_iff_two :
    ∃ last, Reaches twoFrames.values 2 last ∧
      (last.cores 0).sp? = some 0xffff800080100000 ∧ (last.cores 1).sp? = some 0xffff800080180000 ∧
      last.HandedOver twoFrames.values ∧ last.Separate 0xffff800000000000 := by
  obtain ⟨last, ran, own, other⟩ : ∃ last,
      [none, none, none, some 0, some 0, some 0, none, none, none, none, none, none, none, some 1,
        some 1].foldlM (step twoFrames.values 2) init = some last ∧
      (last.cores 0).sp? = some 0xffff800080100000 ∧
      (last.cores 1).sp? = some 0xffff800080180000 := ⟨_, rfl, by decide, by decide⟩
  have begun : Reaches twoFrames.values 2 init := .start rfl
  exact ⟨last, begun.foldlM ran, own, other,
    (handoff_iff twoFrames).mpr (Nat.le_refl 2) last (begun.foldlM ran)⟩

/-- Three tables and three stacks. -/
def threeFrames : CoreFrames 0xffff800000000000 3 where
  table core := 0xffff800080000000 + UInt64.ofNat (4096 * core)
  stack core := 0xffff800080100000 + UInt64.ofNat (0x80000 * core)
  satp := 0
  mapAligned := by decide
  aligned := by decide
  short := by decide
  tablesApart := by decide
  stacksApart := by decide

/-- Three secondary cores, with the boot core overtaking the second: it and the third come to run on
one root table and one stack, those made for the third. -/
theorem two_cores_one_stack :
    ∃ last, Reaches threeFrames.values 3 last ∧
      (last.cores 1).sp? = some 0xffff800080200000 ∧ (last.cores 2).sp? = some 0xffff800080200000 ∧
      (last.cores 1).satp? = (last.cores 2).satp? ∧ ¬ last.HandedOver threeFrames.values := by
  obtain ⟨last, ran, own, other, same⟩ : ∃ last,
      (overtaking ++ [none, none, some 1, some 2, some 2]).foldlM (step threeFrames.values 3) init =
        some last ∧ (last.cores 1).sp? = some 0xffff800080200000 ∧
      (last.cores 2).sp? = some 0xffff800080200000 ∧
      (last.cores 1).satp? = (last.cores 2).satp? := ⟨_, rfl, by decide, by decide, rfl⟩
  have begun : Reaches threeFrames.values 3 init := .start rfl
  exact ⟨last, begun.foldlM ran, own, other, same, fun handed =>
    absurd (handed.sp 1 _ own) (by decide)⟩

end Smp

end Lsd
