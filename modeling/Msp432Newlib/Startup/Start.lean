import Msp432Newlib.Arm.Call

/-!
# `_start` in `crt0.S`

The entry of the C library on a processor of the M profile without a debug monitor: `start` is the
code from the label `_start` to the call of `exit`, in Thumb-2, with or without `__USES_INITFINI__`
and `_LITE_EXIT`.  The functions that it calls are outside this file, except `_stack_init`; they are
taken to follow the procedure call standard, to write only where they may (`free`), and `memset` to
do what its name says (`Library`).  Whatever is in registers and memory, the code comes to `main`
without arguments, with a stack, with `.bss` zeroed, and then hands the value of `main` to `exit`
(`start_runs_main`).
-/

namespace Newlib.Startup

open Arm StateTransition

/-- The functions that `_start` calls by name. -/
inductive StartFn where
  | stackInit | memset | atexit | init | main | exit

inductive StartLabel where
  | LC24 | LC25 | Lweak_atexit
  deriving DecidableEq

/-- The literal pool behind the code: addresses that the linker fills in, 0 for weak symbols without
a definition. -/
structure Pool where
  /-- `.Lstack`, the symbol `__stack` -/
  stack : Word
  /-- `.LC1`, the symbol `__bss_start__` -/
  bssStart : Word
  /-- `.LC2`, the symbol `__bss_end__` -/
  bssEnd : Word
  /-- `.Lhwinit`, the function `hardware_init_hook` -/
  hwinit : Word
  /-- `.Lswinit`, the function `software_init_hook` -/
  swinit : Word
  /-- `.Latexit`, the function `atexit` -/
  atexit : Word
  /-- `.Lfini`, the function `_fini` -/
  fini : Word

/-- `.LC0`, the top of RAM on the PIE board. -/
def topOfRam : Word := 0x80000

/-- `_stack_init`, where the processor has no `CPSR` register. -/
def stackInit : Instr Empty Empty := .sub false .sl .r3 (.imm 0x10000)    -- sub sl, r3, #64 << 10

/-- Set up the stack pointer and zero the memory in the `.bss` section. -/
def setup (pool : Pool) : List (Line StartLabel StartFn) := [
  .ins (.ldrLit .r3 pool.stack),                        -- ldr r3, .Lstack
  .ins (.cmp .r3 (.imm 0)),                             -- cmp r3, #0
  .when .eq (.ldrLit .r3 topOfRam),                     -- ldreq r3, .LC0
  .ins (.mov false .sp (.reg .r3)),                     -- mov sp, r3
  .ins (.bl .stackInit),                                -- bl _stack_init
  .ins (.mov true .r1 (.imm 0)),                        -- movs a2, #0
  .ins (.mov false .fp (.reg .r1)),                     -- mov fp, a2
  .ins (.mov false .r7 (.reg .r1)),                     -- mov r7, a2
  .ins (.ldrLit .r0 pool.bssStart),                     -- ldr a1, .LC1
  .ins (.ldrLit .r2 pool.bssEnd),                       -- ldr a3, .LC2
  .ins (.sub true .r2 .r2 (.reg .r0)),                  -- subs a3, a3, a1
  .ins (.bl .memset)]                                   -- bl memset

/-- Initialise target specific stuff, and pass no arguments. -/
def hooks (pool : Pool) : List (Line StartLabel StartFn) := [
  .ins (.ldrLit .r3 pool.hwinit),                       -- ldr r3, .Lhwinit
  .ins (.cmp .r3 (.imm 0)),                             -- cmp r3, #0
  .when .eq (.b .LC24),                                 -- beq .LC24
  .ins (.blx .r3),                                      -- indirect_call r3
  .label .LC24,
  .ins (.ldrLit .r3 pool.swinit),                       -- ldr r3, .Lswinit
  .ins (.cmp .r3 (.imm 0)),                             -- cmp r3, #0
  .when .eq (.b .LC25),                                 -- beq .LC25
  .ins (.blx .r3),                                      -- indirect_call r3
  .label .LC25,
  .ins (.mov true .r0 (.imm 0)),                        -- movs r0, #0
  .ins (.mov true .r1 (.imm 0))]                        -- movs r1, #0

/-- Without `_LITE_EXIT` the reference to `atexit` is not weak. -/
def weakAtexit (pool : Pool) (lite : Bool) : List (Line StartLabel StartFn) :=
  if lite then
    [.ins (.ldrLit .r0 pool.atexit),                    -- ldr r0, .Latexit
      .ins (.cmp .r0 (.imm 0)),                         -- cmp r0, #0
      .when .eq (.b .Lweak_atexit)]                     -- beq .Lweak_atexit
  else []

/-- Call `_init`, and arrange for `_fini` to be called at program exit. -/
def initFini (pool : Pool) (uses lite : Bool) : List (Line StartLabel StartFn) :=
  if uses then List.flatten [
    [.ins (.mov true .r4 (.reg .r0)),                   -- movs r4, r0
      .ins (.mov true .r5 (.reg .r1))],                 -- movs r5, r1
    weakAtexit pool lite,
    [.ins (.ldrLit .r0 pool.fini),                      -- ldr r0, .Lfini
      .ins (.bl .atexit),                               -- bl atexit
      .label .Lweak_atexit,
      .ins (.bl .init),                                 -- bl _init
      .ins (.mov true .r0 (.reg .r4)),                  -- movs r0, r4
      .ins (.mov true .r1 (.reg .r5))]]                 -- movs r1, r5
  else []

/-- The code of `_start`; `uses` and `lite` say whether `__USES_INITFINI__` and `_LITE_EXIT` are
defined. -/
def start (pool : Pool) (uses lite : Bool) : List (Line StartLabel StartFn) := List.flatten [
  setup pool,
  hooks pool,
  initFini pool uses lite,
  [.ins (.bl .main),                                    -- bl main
    .ins (.bl .exit)]]                                  -- bl exit

/-- The line that calls `main`. -/
def mainLine (pool : Pool) (uses lite : Bool) : ℕ := 24 + (initFini pool uses lite).length

/-- The functions that are called, with `_stack_init` as it is in the file. -/
def startCall (lib : StartFn ⊕ Word → Cpu → Cpu) : StartFn ⊕ Word → Cpu → Cpu
  | .inl .stackInit, s => effect (fun _ => id) stackInit s
  | f, s => lib f s

/-! ## What the code relies on, and what it arrives at -/

/-- The stack pointer that `_start` sets. -/
def Pool.sp (pool : Pool) : Word := if pool.stack = 0 then topOfRam else pool.stack

/-- The functions outside the file follow the procedure call standard and write no memory but what
is `free` to them, and `memset` fills `r2` bytes at `r0` with the low byte of `r1`. -/
structure Library (free : Word → Prop) (lib : StartFn ⊕ Word → Cpu → Cpu) : Prop where
  hook : ∀ v s, Keeps free s (lib (.inr v) s)
  atexit : ∀ s, Keeps free s (lib (.inl .atexit) s)
  init : ∀ s, Keeps free s (lib (.inl .init) s)
  memset_saved : ∀ s, ∀ r ∈ calleeSaved, (lib (.inl .memset) s).reg r = s.reg r
  memset_mem : ∀ s x, ¬ free x → (lib (.inl .memset) s).mem x =
    if Beyond (s.reg .r0) (s.reg .r2).toNat x then s.mem x else (s.reg .r1).setWidth 8

/-- The state after `memset`. -/
structure SetUp (pool : Pool) (free : Word → Prop) (s s' : Cpu) : Prop where
  sp_eq : s'.reg .sp = pool.sp
  sl_eq : s'.reg .sl = pool.sp - 0x10000
  fp_eq : s'.reg .fp = 0
  r7_eq : s'.reg .r7 = 0
  mem_eq : ∀ x, ¬ free x → s'.mem x =
    if Beyond pool.bssStart (pool.bssEnd - pool.bssStart).toNat x then s.mem x else 0

/-- The state in which `main` is called. -/
structure AtMain (pool : Pool) (free : Word → Prop) (s s' : Cpu) : Prop extends
    SetUp pool free s s' where
  argc_eq : s'.reg .r0 = 0
  argv_eq : s'.reg .r1 = 0

lemma SetUp.keeps {pool : Pool} {free : Word → Prop} {s s' s'' : Cpu} (h : SetUp pool free s s')
    (hk : Keeps free s' s'') : SetUp pool free s s'' where
  sp_eq := (hk.saved .sp (by decide)).trans h.sp_eq
  sl_eq := (hk.saved .sl (by decide)).trans h.sl_eq
  fp_eq := (hk.saved .fp (by decide)).trans h.fp_eq
  r7_eq := (hk.saved .r7 (by decide)).trans h.r7_eq
  mem_eq x hx := (hk.mem x hx).trans (h.mem_eq x hx)

section Run

variable {pool : Pool} {uses lite : Bool} {free : Word → Prop} {lib : StartFn ⊕ Word → Cpu → Cpu}
  {s : Cpu} {P : ℕ × Cpu → Prop}

/-- The code up to the call of `memset`. -/
lemma leads_setup (hlib : Library free lib)
    (h : ∀ s', SetUp pool free s s' → Leads (startCall lib) (start pool uses lite) 12 s' P) :
    Leads (startCall lib) (start pool uses lite) 0 s P := by
  refine .ins rfl (.ins rfl ?_)
  have hrest : ∀ t : Cpu, t.reg .r3 = pool.sp → t.mem = s.mem →
      Leads (startCall lib) (start pool uses lite) 3 t P := by
    intro t hr3 hmem
    refine .ins rfl (.ins rfl (.ins rfl (.ins rfl (.ins rfl ?_))))
    refine .ins rfl (.ins rfl (.ins rfl (.ins rfl (h _ ?_))))
    refine ⟨?_, ?_, ?_, ?_, fun x hx => ?_⟩
    · exact (hlib.memset_saved _ .sp (by decide)).trans hr3
    · exact (hlib.memset_saved _ .sl (by decide)).trans (congrArg (· - 0x10000) hr3)
    · exact hlib.memset_saved _ .fp (by decide)
    · exact hlib.memset_saved _ .r7 (by decide)
    · rw [← hmem]
      exact hlib.memset_mem _ x hx
  by_cases hv : pool.stack = 0
  · have hz : decide (pool.stack - 0 = 0) = true := decide_eq_true (by bv_omega)
    refine .when rfl hz (hrest _ ?_ rfl)
    unfold Pool.sp
    rw [if_pos hv]
    rfl
  · have hz : decide (pool.stack - 0 = 0) = false := decide_eq_false (by bv_omega)
    refine .pass rfl hz (hrest _ ?_ rfl)
    unfold Pool.sp
    rw [if_neg hv]
    rfl

/-- From the hooks to the place where there are no arguments. -/
lemma leads_hooks (hlib : Library free lib)
    (h : ∀ s', Keeps free s s' → s'.reg .r0 = 0 → s'.reg .r1 = 0 →
      Leads (startCall lib) (start pool uses lite) 24 s' P) :
    Leads (startCall lib) (start pool uses lite) 12 s P := by
  refine .weak rfl rfl rfl rfl rfl rfl (hlib.hook _) fun s' hs' => ?_
  refine .weak rfl rfl rfl rfl rfl rfl (hlib.hook _) fun s'' hs'' => ?_
  refine .ins rfl (.ins rfl (h _ ?_ rfl rfl))
  exact ((((hs'.trans hs'').set (by decide) _).flags _ _ _).set (by decide) _).flags _ _ _

/-- The place of the calls of `main` and of `exit`. -/
lemma start_main : (start pool uses lite)[mainLine pool uses lite]? = some (.ins (.bl .main)) := by
  rcases Bool.eq_false_or_eq_true uses with rfl | rfl
  · rcases Bool.eq_false_or_eq_true lite with rfl | rfl <;> rfl
  · rfl

lemma start_exit : (start pool uses lite)[mainLine pool uses lite + 1]? =
    some (.ins (.bl .exit)) := by
  rcases Bool.eq_false_or_eq_true uses with rfl | rfl
  · rcases Bool.eq_false_or_eq_true lite with rfl | rfl <;> rfl
  · rfl

/-- `movs r4, r0` and `movs r5, r1` -/
def saveArgs (s : Cpu) : Cpu :=
  effect (fun _ => id) (.mov true .r5 (.reg .r1) : Instr Empty Empty)
    (effect (fun _ => id) (.mov true .r4 (.reg .r0) : Instr Empty Empty) s)

/-- `movs r0, r4` and `movs r1, r5` -/
def restoreArgs (s : Cpu) : Cpu :=
  effect (fun _ => id) (.mov true .r1 (.reg .r5) : Instr Empty Empty)
    (effect (fun _ => id) (.mov true .r0 (.reg .r4) : Instr Empty Empty) s)

lemma SetUp.saveArgs {s₀ : Cpu} (h : SetUp pool free s₀ s) : SetUp pool free s₀ (saveArgs s) :=
  ⟨h.sp_eq, h.sl_eq, h.fp_eq, h.r7_eq, h.mem_eq⟩

/-- The arguments come back after a function has been called. -/
lemma SetUp.restoreArgs {s₀ s' : Cpu} (h : SetUp pool free s₀ s) (hargc : s.reg .r0 = 0)
    (hargv : s.reg .r1 = 0) (hk : Keeps free (Startup.saveArgs s) s') :
    AtMain pool free s₀ (restoreArgs s') where
  toSetUp := by
    refine h.saveArgs.keeps ?_
    unfold Startup.restoreArgs
    exact (hk.mov (by decide)).mov (by decide)
  argc_eq := (hk.saved .r4 (by decide)).trans hargc
  argv_eq := (hk.saved .r5 (by decide)).trans hargv

/-- The arguments of `main` are kept in `r4` and `r5` while constructors run. -/
lemma leads_initFini (hlib : Library free lib) {s₀ : Cpu} (hs : SetUp pool free s₀ s)
    (hargc : s.reg .r0 = 0) (hargv : s.reg .r1 = 0) :
    Leads (startCall lib) (start pool uses lite) 24 s fun p =>
      p.1 = mainLine pool uses lite ∧ AtMain pool free s₀ p.2 := by
  have hmain : ∀ t, Keeps free (saveArgs s) t →
      AtMain pool free s₀ (restoreArgs (lib (.inl .init) t)) :=
    fun t ht => hs.restoreArgs hargc hargv (ht.trans (hlib.init t))
  have hrefl : Keeps free (saveArgs s) (saveArgs s) := .refl _
  rcases Bool.eq_false_or_eq_true uses with rfl | rfl
  · rcases Bool.eq_false_or_eq_true lite with rfl | rfl
    · -- `atexit` is called if it is there
      have hweak := (hrefl.set (r := .r0) (by decide) pool.atexit).flags true (pool.atexit - 0)
        (decide (0 ≤ pool.atexit))
      refine .ins rfl (.ins rfl (.ins rfl (.ins rfl ?_)))
      by_cases hv : pool.atexit = 0
      · have hz : decide (pool.atexit - 0 = 0) = true := decide_eq_true (by bv_omega)
        refine .branch (m := 31) rfl hz rfl (.label rfl (.ins rfl (.ins rfl (.ins rfl ?_))))
        exact .here ⟨rfl, hmain _ hweak⟩
      · have hz : decide (pool.atexit - 0 = 0) = false := decide_eq_false (by bv_omega)
        refine .pass rfl hz (.ins rfl (.ins rfl (.label rfl (.ins rfl (.ins rfl (.ins rfl ?_))))))
        exact .here ⟨rfl, hmain _ ((hweak.set (by decide) _).trans (hlib.atexit _))⟩
    · refine .ins rfl (.ins rfl (.ins rfl (.ins rfl (.label rfl (.ins rfl (.ins rfl ?_))))))
      refine .ins rfl (.here ⟨rfl, hmain _ ?_⟩)
      exact (hrefl.set (by decide) _).trans (hlib.atexit _)
  · exact .here ⟨rfl, hs, hargc, hargv⟩

/-- The code up to the call of `main`. -/
lemma leads_main (hlib : Library free lib) (pool : Pool) (uses lite : Bool) (s : Cpu) :
    Leads (startCall lib) (start pool uses lite) 0 s fun p =>
      p.1 = mainLine pool uses lite ∧ AtMain pool free s p.2 := by
  refine leads_setup hlib fun s₁ h₁ => ?_
  refine leads_hooks hlib fun s₂ h₂ hargc hargv => ?_
  exact leads_initFini hlib (h₁.keeps h₂) hargc hargv

/-- **The environment of `main`.**  From any state, with any of the weak symbols defined or not, the
code comes to the call of `main`, without arguments, with a stack and with `.bss` zeroed, and with
everything else that the called functions may not write as it was; when `main` returns, it calls
`exit` with what `main` has left. -/
theorem start_runs_main (hlib : Library free lib) (pool : Pool) (uses lite : Bool) (s : Cpu) :
    ∃ s', AtMain pool free s s' ∧
      Reaches (step (startCall lib) (start pool uses lite)) (0, s) (mainLine pool uses lite, s') ∧
      (start pool uses lite)[mainLine pool uses lite]? = some (.ins (.bl .main)) ∧
      step (startCall lib) (start pool uses lite) (mainLine pool uses lite, s') =
        some (mainLine pool uses lite + 1, lib (.inl .main) s') ∧
      (start pool uses lite)[mainLine pool uses lite + 1]? = some (.ins (.bl .exit)) := by
  obtain ⟨⟨n, s'⟩, ⟨rfl, hmain⟩, hreach⟩ :=
    leads_main hlib pool uses lite s
  exact ⟨s', hmain, hreach, start_main, step_when start_main rfl, start_exit⟩

end Run

/-- A library that writes what it is asked to write and nothing else. -/
def quietLibrary : StartFn ⊕ Word → Cpu → Cpu
  | .inl .memset, s =>
    { s with mem := fun x =>
      if Beyond (s.reg .r0) (s.reg .r2).toNat x then s.mem x else (s.reg .r1).setWidth 8 }
  | _, s => s

/-- A program without hooks and constructors. -/
theorem start_runs_main_plain : ∃ s', AtMain ⟨0x20010000, 0x20000100, 0x20000200, 0, 0, 0, 0⟩
      (fun _ => False) ⟨fun _ => 0, false, false, fun _ => 0xff⟩ s' ∧
    Reaches (step (startCall quietLibrary)
      (start ⟨0x20010000, 0x20000100, 0x20000200, 0, 0, 0, 0⟩ false false))
      (0, ⟨fun _ => 0, false, false, fun _ => 0xff⟩) (24, s') := by
  have hlib : Library (fun _ => False) quietLibrary :=
    ⟨fun _ => .refl, .refl, .refl, fun _ _ _ => rfl, fun _ _ _ => rfl⟩
  obtain ⟨s', hmain, hrun, -⟩ :=
    start_runs_main hlib ⟨0x20010000, 0x20000100, 0x20000200, 0, 0, 0, 0⟩
    false false ⟨fun _ => 0, false, false, fun _ => 0xff⟩
  exact ⟨s', hmain, hrun⟩

end Newlib.Startup
